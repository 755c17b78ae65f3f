import AsyncDataHub.StepSystem

/-! Transactions that lock resources one after the other and hold the locks until they end. Where
all of them lock in one order, none waits for itself through others. -/
namespace AsyncDataHub.LockOrder
open StepSystem

structure Lock (T R M : Type*) where
  holder : T
  resource : R
  mode : M

/-- `todo` are the requests to come; while it is `waiting`, the first of them was made and has not
been granted. -/
structure Txn (R M : Type*) where
  mode : R → M
  todo : List R
  waiting : Bool := false

structure State (T R M : Type*) where
  txns : T → Option (Txn R M) := fun _ => none
  locks : List (Lock T R M) := []

inductive Action (T R M : Type*)
  | begin (t : T) (ids : List R) (mode : R → M)
  | request (t : T)
  | commit (t : T)
  | abort (t : T)

variable {T R M : Type*}

def State.Holds (s : State T R M) (t : T) (r : R) : Prop :=
  ∃ l ∈ s.locks, l.holder = t ∧ l.resource = r

/-- A request is granted if the lock is held already or goes with the locks of all others. -/
def State.Grants (compatible : M → M → Bool) (s : State T R M) (t : T) (r : R) (mode : M) : Prop :=
  s.Holds t r ∨ ∀ l ∈ s.locks, l.resource = r → l.holder ≠ t → compatible mode l.mode = true

/-- The lock of `u` that keeps the next request of `t` from being granted. -/
def Blocks (compatible : M → M → Bool) (s : State T R M) (t u : T) : Prop :=
  ∃ x r rest, s.txns t = some x ∧ x.todo = r :: rest ∧ ¬ s.Holds t r ∧
    ∃ l ∈ s.locks, l.holder = u ∧ l.resource = r ∧ u ≠ t ∧ compatible (x.mode r) l.mode = false

def WaitsFor (compatible : M → M → Bool) (s : State T R M) (t u : T) : Prop :=
  ∃ x r rest, s.txns t = some x ∧ x.waiting = true ∧ x.todo = r :: rest ∧
    ∃ l ∈ s.locks, l.holder = u ∧ l.resource = r ∧ u ≠ t ∧ compatible (x.mode r) l.mode = false

/-- The next request of a transaction, if its lock is not held already. -/
def Pending (s : State T R M) (t : T) (r : R) : Prop :=
  ∃ x rest, s.txns t = some x ∧ x.todo = r :: rest ∧ ¬ s.Holds t r

section Step
variable [DecidableEq T] [DecidableEq R]

instance (s : State T R M) (t : T) (r : R) : Decidable (s.Holds t r) :=
  inferInstanceAs (Decidable (∃ l ∈ s.locks, _))

instance (compatible : M → M → Bool) (s : State T R M) (t : T) (r : R) (mode : M) :
    Decidable (s.Grants compatible t r mode) :=
  inferInstanceAs (Decidable (_ ∨ ∀ l ∈ s.locks, _))

def State.setTxn (s : State T R M) (t : T) (x : Txn R M) : State T R M :=
  { s with txns := Function.update s.txns t (some x) }

def State.finish (s : State T R M) (t : T) : State T R M where
  txns := Function.update s.txns t none
  locks := s.locks.filter fun l => l.holder ≠ t

def request (compatible : M → M → Bool) (s : State T R M) (t : T) (x : Txn R M) :
    Option (State T R M) :=
  match x.todo with
  | [] => none
  | r :: rest =>
    if s.Grants compatible t r (x.mode r) then
      some { s.setTxn t { x with todo := rest, waiting := false } with
        locks := ⟨t, r, x.mode r⟩ :: s.locks }
    else if x.waiting then none
    else some (s.setTxn t { x with waiting := true })

/-- A transaction makes its requests in the order that `order` gives its resources. -/
def step (order : List R → List R) (compatible : M → M → Bool) (s : State T R M) :
    Action T R M → Option (State T R M)
  | .begin t ids mode =>
    match s.txns t with
    | some _ => none
    | none => some (s.setTxn t { mode, todo := order ids })
  | .request t => (s.txns t).bind (request compatible s t)
  | .commit t => (s.txns t).bind fun x => if x.todo = [] then some (s.finish t) else none
  | .abort t => (s.txns t).map fun _ => s.finish t

variable {order : List R → List R} {compatible : M → M → Bool} {s s' : State T R M}
  {a : Action T R M}

/-- What a step has checked and what it does. -/
inductive Took (order : List R → List R) (compatible : M → M → Bool) (s : State T R M) :
    State T R M → Prop
  | begins {t : T} (ids : List R) (mode : R → M) (fresh : s.txns t = none) :
      Took order compatible s (s.setTxn t { mode, todo := order ids })
  | locks {t : T} {x : Txn R M} {r : R} {rest : List R} (found : s.txns t = some x)
      (next : x.todo = r :: rest) (grants : s.Grants compatible t r (x.mode r)) :
      Took order compatible s
        { s.setTxn t { x with todo := rest, waiting := false } with
          locks := ⟨t, r, x.mode r⟩ :: s.locks }
  | waits {t : T} {x : Txn R M} {r : R} {rest : List R} (found : s.txns t = some x)
      (next : x.todo = r :: rest) (refused : ¬ s.Grants compatible t r (x.mode r)) :
      Took order compatible s (s.setTxn t { x with waiting := true })
  | finishes (t : T) : Took order compatible s (s.finish t)

lemma took_of_step (h : step order compatible s a = some s') : Took order compatible s s' := by
  cases a with
  | begin t ids mode =>
    simp only [step] at h
    split at h
    · cases h
    · exact Option.some.inj h ▸ .begins ids mode ‹_›
  | request t =>
    obtain ⟨x, hx, h⟩ := Option.bind_eq_some_iff.mp h
    unfold request at h
    split at h
    · cases h
    · rename_i r rest hnext
      split_ifs at h with hgrants hwaiting
      · exact Option.some.inj h ▸ .locks hx hnext hgrants
      · exact Option.some.inj h ▸ .waits hx hnext hgrants
  | commit t =>
    obtain ⟨x, -, h⟩ := Option.bind_eq_some_iff.mp h
    split_ifs at h
    exact Option.some.inj h ▸ .finishes t
  | abort t =>
    obtain ⟨x, -, rfl⟩ := Option.map_eq_some_iff.mp h
    exact .finishes t

end Step

/-- What a transaction holds is not above what it will ask for, and what it waits for it does not
hold. -/
structure Ordered [LE R] (s : State T R M) : Prop where
  sorted : ∀ t x, s.txns t = some x → x.todo.Pairwise (· ≤ ·)
  behind : ∀ l ∈ s.locks, ∃ x, s.txns l.holder = some x ∧ ∀ r ∈ x.todo, l.resource ≤ r
  waits : ∀ t x, s.txns t = some x → x.waiting = true →
    ∃ r rest, x.todo = r :: rest ∧ ¬ s.Holds t r
  finite : {t | s.txns t ≠ none}.Finite

lemma ordered_init [LE R] : Ordered ({} : State T R M) where
  sorted _ _ h := by cases h
  behind _ h := by cases h
  waits _ _ h := by cases h
  finite := by simp

section Invariant
variable [DecidableEq T] [LE R] {s s' : State T R M} {t : T} {r : R} {a : Action T R M}
  {order : List R → List R} {compatible : M → M → Bool}

omit [LE R] in
lemma finite_update {txns : T → Option (Txn R M)} (h : {t | txns t ≠ none}.Finite) (t : T)
    (x : Option (Txn R M)) : {u | Function.update txns t x u ≠ none}.Finite := by
  refine (h.insert t).subset fun u hu => ?_
  by_cases hut : u = t
  · exact .inl hut
  · rw [Set.mem_ofPred_eq, Function.update_of_ne hut] at hu
    exact .inr hu

lemma ordered_begins {ids : List R} {mode : R → M} (hsorted : ∀ l, (order l).Pairwise (· ≤ ·))
    (h : Ordered s) (hfresh : s.txns t = none) :
    Ordered (s.setTxn t { mode, todo := order ids }) where
  sorted := forall_update h.sorted (hsorted ids)
  behind l hl := by
    obtain ⟨x, hx, hle⟩ := h.behind l hl
    have hne : l.holder ≠ t := by
      rintro rfl
      rw [hfresh] at hx
      cases hx
    exact ⟨x, (Function.update_of_ne hne ..).trans hx, hle⟩
  waits := forall_update h.waits nofun
  finite := finite_update h.finite t _

lemma ordered_locks {x : Txn R M} {rest : List R} (h : Ordered s) (hx : s.txns t = some x)
    (hnext : x.todo = r :: rest) :
    Ordered { s.setTxn t { x with todo := rest, waiting := false } with
      locks := ⟨t, r, x.mode r⟩ :: s.locks } where
  sorted := by
    have hpair := h.sorted t x hx
    rw [hnext, List.pairwise_cons] at hpair
    exact forall_update h.sorted hpair.2
  behind l hl := by
    have hpair := h.sorted t x hx
    rw [hnext, List.pairwise_cons] at hpair
    rcases List.mem_cons.mp hl with rfl | hl
    · exact ⟨_, Function.update_self .., hpair.1⟩
    · obtain ⟨y, hy, hle⟩ := h.behind l hl
      by_cases hholder : l.holder = t
      · rw [hholder, hx, Option.some.injEq] at hy
        subst hy
        rw [hholder]
        exact ⟨_, Function.update_self .., fun r' hr' => hle r' (by simp [hnext, hr'])⟩
      · exact ⟨y, (Function.update_of_ne hholder ..).trans hy, hle⟩
  waits u y hy hwaiting := by
    rcases update_eq_some.mp hy with ⟨rfl, rfl⟩ | ⟨hne, hy⟩
    · cases hwaiting
    · obtain ⟨r', rest', hnext', hholds⟩ := h.waits u y hy hwaiting
      refine ⟨r', rest', hnext', ?_⟩
      rintro ⟨l, hl, hholder, hresource⟩
      rcases List.mem_cons.mp hl with rfl | hl
      · exact hne hholder.symm
      · exact hholds ⟨l, hl, hholder, hresource⟩
  finite := finite_update h.finite t _

lemma ordered_waits {x : Txn R M} {rest : List R} (h : Ordered s) (hx : s.txns t = some x)
    (hnext : x.todo = r :: rest) (hholds : ¬ s.Holds t r) :
    Ordered (s.setTxn t { x with waiting := true }) where
  sorted := forall_update h.sorted (h.sorted t x hx)
  behind l hl := by
    obtain ⟨y, hy, hle⟩ := h.behind l hl
    by_cases hholder : l.holder = t
    · rw [hholder, hx, Option.some.injEq] at hy
      subst hy
      rw [hholder]
      exact ⟨_, Function.update_self .., hle⟩
    · exact ⟨y, (Function.update_of_ne hholder ..).trans hy, hle⟩
  waits := forall_update h.waits fun _ => ⟨r, rest, hnext, hholds⟩
  finite := finite_update h.finite t _

lemma ordered_finishes (h : Ordered s) (t : T) : Ordered (s.finish t) := by
  have hkeep : ∀ {u x}, Function.update s.txns t none u = some x → u ≠ t ∧ s.txns u = some x := by
    intro u x hu
    by_cases hut : u = t
    · simp [hut] at hu
    · exact ⟨hut, by rwa [Function.update_of_ne hut] at hu⟩
  refine ⟨fun u x hu => h.sorted u x (hkeep hu).2, fun l hl => ?_, fun u x hu hwaiting => ?_,
    finite_update h.finite t none⟩
  · obtain ⟨hl, hholder⟩ := List.mem_filter.mp hl
    have hne : l.holder ≠ t := by simpa using hholder
    obtain ⟨x, hx, hle⟩ := h.behind l hl
    exact ⟨x, (Function.update_of_ne hne ..).trans hx, hle⟩
  · obtain ⟨r, rest, hnext, hholds⟩ := h.waits u x (hkeep hu).2 hwaiting
    refine ⟨r, rest, hnext, ?_⟩
    rintro ⟨l, hl, hheld⟩
    exact hholds ⟨l, (List.mem_filter.mp hl).1, hheld⟩

theorem ordered_of_exec [DecidableEq R] {acts : List (Action T R M)}
    (hsorted : ∀ l, (order l).Pairwise (· ≤ ·))
    (h : exec (step order compatible) {} acts = some s) : Ordered s := by
  refine (reach_of_exec acts h).invariant ordered_init fun s a s' hs _ hstep => ?_
  cases took_of_step hstep with
  | begins ids mode hfresh => exact ordered_begins hsorted hs hfresh
  | locks hx hnext _ => exact ordered_locks hs hx hnext
  | waits hx hnext hrefused =>
    exact ordered_waits hs hx hnext fun hholds => hrefused (.inl hholds)
  | finishes t => exact ordered_finishes hs t

end Invariant

section Graph
variable {compatible : M → M → Bool} {s : State T R M} {t u : T} {r r' : R}

lemma Pending.unique (h : Pending s t r) (h' : Pending s t r') : r = r' := by
  obtain ⟨x, rest, hx, hnext, -⟩ := h
  obtain ⟨x', rest', hx', hnext', -⟩ := h'
  rw [hx, Option.some.injEq] at hx'
  subst hx'
  rw [hnext, List.cons.injEq] at hnext'
  exact hnext'.1

lemma Blocks.pending (h : Blocks compatible s t u) : ∃ r, Pending s t r := by
  obtain ⟨x, r, rest, hx, hnext, hholds, -⟩ := h
  exact ⟨r, x, rest, hx, hnext, hholds⟩

variable [LinearOrder R]

lemma Blocks.lt (hi : Ordered s) (h : Blocks compatible s t u) (ht : Pending s t r)
    (hu : Pending s u r') : r < r' := by
  obtain ⟨x, r₀, rest, hx, hnext, hholds, l, hl, rfl, hresource, -⟩ := h
  obtain rfl := Pending.unique ⟨x, rest, hx, hnext, hholds⟩ ht
  obtain ⟨y, rest', hy, hnext', hholds'⟩ := hu
  obtain ⟨z, hz, hle⟩ := hi.behind l hl
  rw [hy, Option.some.injEq] at hz
  subst hz
  have hle' : r₀ ≤ r' := hresource ▸ hle r' (by simp [hnext'])
  refine lt_of_le_of_ne hle' ?_
  rintro rfl
  exact hholds' ⟨l, hl, rfl, hresource⟩

lemma lt_of_transGen (hi : Ordered s) (h : Relation.TransGen (Blocks compatible s) t u)
    (ht : Pending s t r) (hu : Pending s u r') : r < r' := by
  induction h generalizing r' with
  | single hblocks => exact hblocks.lt hi ht hu
  | tail _ hblocks ih =>
    obtain ⟨r₀, hr₀⟩ := hblocks.pending
    exact (ih hr₀).trans (hblocks.lt hi hr₀ hu)

lemma blocks_of_waitsFor (hi : Ordered s) (h : WaitsFor compatible s t u) :
    Blocks compatible s t u := by
  obtain ⟨x, r, rest, hx, hwaiting, hnext, hlock⟩ := h
  obtain ⟨r₀, rest₀, hnext₀, hholds⟩ := hi.waits t x hx hwaiting
  rw [hnext, List.cons.injEq] at hnext₀
  exact ⟨x, r, rest, hx, hnext, hnext₀.1 ▸ hholds, hlock⟩

/-- The wait-for graph has no cycle. -/
theorem acyclic (hi : Ordered s) (t : T) : ¬ Relation.TransGen (WaitsFor compatible s) t t := by
  intro hcycle
  have hle : WaitsFor compatible s ≤ Blocks compatible s := fun _ _ => blocks_of_waitsFor hi
  have hblocks : Relation.TransGen (Blocks compatible s) t t :=
    Relation.TransGen.mono hle t t hcycle
  obtain ⟨u, hfirst, -⟩ := Relation.TransGen.head'_iff.mp hblocks
  obtain ⟨r, hr⟩ := hfirst.pending
  exact lt_irrefl r (lt_of_transGen hi hblocks hr hr)

/-- Among finitely many transactions one is blocked by none of them: one with the greatest pending
request. -/
lemma exists_not_blocks (compatible : M → M → Bool) (hi : Ordered s) {D : Finset T}
    (hD : D.Nonempty) : ∃ t ∈ D, ∀ u ∈ D, ¬ Blocks compatible s t u := by
  by_contra hall
  push Not at hall
  have hpending : ∀ t ∈ D, ∃ r, Pending s t r := by
    intro t ht
    obtain ⟨u, -, hblocks⟩ := hall t ht
    exact hblocks.pending
  choose next hnext using hpending
  obtain ⟨⟨t, ht⟩, -, hmax⟩ := D.attach.exists_max_image (fun t => next t.1 t.2) (by simpa using hD)
  obtain ⟨u, hu, hblocks⟩ := hall t ht
  have hlt := hblocks.lt hi (hnext t ht) (hnext u hu)
  exact absurd (hmax ⟨u, hu⟩ (by simp)) (not_le.mpr hlt)

/-- While a transaction is open, one of those that are open has all its locks or is granted the next
one. -/
theorem exists_progress (hi : Ordered s) (ht : s.txns t ≠ none) :
    ∃ u x, s.txns u = some x ∧
      (x.todo = [] ∨ ∃ r rest, x.todo = r :: rest ∧ s.Grants compatible u r (x.mode r)) := by
  obtain ⟨u, hu, hfree⟩ := exists_not_blocks compatible hi
    (D := hi.finite.toFinset) ⟨t, by simpa using ht⟩
  have hopen : s.txns u ≠ none := by simpa using hu
  obtain ⟨x, hx⟩ := Option.ne_none_iff_exists'.mp hopen
  refine ⟨u, x, hx, ?_⟩
  cases hnext : x.todo with
  | nil => exact .inl rfl
  | cons r rest =>
    refine .inr ⟨r, rest, rfl, ?_⟩
    by_cases hholds : s.Holds u r
    · exact .inl hholds
    · refine .inr fun l hl hresource hne => ?_
      obtain ⟨y, hy, -⟩ := hi.behind l hl
      have hopen' : l.holder ∈ hi.finite.toFinset := by simp [hy]
      by_contra hconflict
      exact hfree l.holder hopen'
        ⟨x, r, rest, hx, hnext, hholds, l, hl, rfl, hresource, hne, by simpa using hconflict⟩

end Graph

end AsyncDataHub.LockOrder
