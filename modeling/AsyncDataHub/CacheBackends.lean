import AsyncDataHub.AsyncCache

/-! The same operations on Redis and on the dictionary in memory. Both are compared with one store
that keeps the strings as they were given, and remembers which of them were written by setnx. -/
namespace AsyncDataHub.Cache
open ExpiringStore PyJson

/-- The operations with string values. A TTL is any int. -/
inductive CacheOp
  | get (key : String)
  | set (key value : String) (ttlSeconds : Option ℤ)
  | setnx (key value : String) (ttlSeconds : Option ℤ)
  | delete (key : String)
  | eval (key token : String)

/-- What an operation returns, or raises; `.null` is None. -/
abbrev Result := Except PyError Json

def effectiveTtl (defaultTtlSeconds : ℕ) : Option ℤ → ℤ
  | none => defaultTtlSeconds
  | some n => if n = 0 then defaultTtlSeconds else n

def expiry (now : ℕ) (ttl : ℤ) : ℕ := (now + ttl * 1000).toNat

/-- Redis refuses an expiry that is not positive, before it looks at the key; the dictionary keeps
an entry that has expired. -/
def invalidExpire : PyError := .responseError "invalid expire time in 'set' command"

def AsyncCache.perform (c : AsyncCache) (now : ℕ) : CacheOp → AsyncCache × Result
  | .get key =>
    let (c', reply) := c.get now key
    (c', reply.map fun value => value.getD .null)
  | .set key value ttlSeconds =>
    let ttl := effectiveTtl c.defaultTtlSeconds ttlSeconds
    if 0 < ttl then (c.set now key (.str value) (some ttl.toNat), .ok .null)
    else
      match c.backend with
      | .redis => (c, .error invalidExpire)
      | .disabled => (c, .ok .null)
      | .memory => ({ c with store := put c.store key (.str value) (expiry now ttl) }, .ok .null)
  | .setnx key value ttlSeconds =>
    let ttl := effectiveTtl c.defaultTtlSeconds ttlSeconds
    if 0 < ttl then
      let (c', stored) := c.setnx now key value (some ttl.toNat)
      (c', .ok (.bool stored))
    else
      match c.backend with
      | .redis => (c, .error invalidExpire)
      | .disabled => (c, .ok (.bool false))
      | .memory =>
        match live c.store now key with
        | some _ => (c, .ok (.bool false))
        | none =>
          ({ c with store := put c.store key (.str value) (expiry now ttl) }, .ok (.bool true))
  | .delete key => (c.delete key, .ok .null)
  | .eval key token =>
    let (c', reply) := c.evalRelease now key token
    (c', reply.map fun n => .int n)

def AsyncCache.results (c : AsyncCache) (now : ℕ) : List (ℕ × CacheOp) → List Result
  | [] => []
  | (delay, op) :: ops =>
    let (c', r) := c.perform (now + delay) op
    r :: c'.results (now + delay) ops

structure Written where
  text : String
  raw : Bool

abbrev Tagged := Store String Written

def Tagged.after (st : Tagged) (defaultTtl now : ℕ) : CacheOp → Tagged
  | .get key =>
    match live st now key with
    | some _ => st
    | none => erase st key
  | .set key value ttlSeconds =>
    put st key ⟨value, false⟩ (expiry now (effectiveTtl defaultTtl ttlSeconds))
  | .setnx key value ttlSeconds =>
    match live st now key with
    | some _ => st
    | none => put st key ⟨value, true⟩ (expiry now (effectiveTtl defaultTtl ttlSeconds))
  | .delete key => erase st key
  | .eval key token =>
    match st key with
    | some e => if e.value.text = token then erase st key else st
    | none => st

/-- The operation does not show which backend is active: no lookup of a live entry that setnx
wrote; no release script with the string of a live entry that set wrote, or with its JSON text, or
with the string of an expired entry that was not looked at since; no TTL that Redis refuses. -/
def Tagged.Portable (st : Tagged) (defaultTtl now : ℕ) : CacheOp → Prop
  | .get key => ∀ e, live st now key = some e → e.value.raw = false
  | .set _ _ ttlSeconds | .setnx _ _ ttlSeconds => 0 < effectiveTtl defaultTtl ttlSeconds
  | .delete _ => True
  | .eval key token => ∀ e, st key = some e →
      (now ≤ e.expiresAt → e.value.raw = true ∨
        token ≠ e.value.text ∧ token ≠ dumps (.str e.value.text)) ∧
      (e.expiresAt < now → token ≠ e.value.text)

def Tagged.PortableRun (st : Tagged) (defaultTtl now : ℕ) : List (ℕ × CacheOp) → Prop
  | [] => True
  | (delay, op) :: ops => st.Portable defaultTtl (now + delay) op ∧
      (st.after defaultTtl (now + delay) op).PortableRun defaultTtl (now + delay) ops

/-- What the dictionary answers. -/
def Tagged.answer (st : Tagged) (now : ℕ) : CacheOp → Result
  | .get key =>
    match live st now key with
    | some e => .ok (.str e.value.text)
    | none => .ok .null
  | .set _ _ _ | .delete _ => .ok .null
  | .setnx key _ _ => .ok (.bool (live st now key).isNone)
  | .eval key token =>
    match st key with
    | some e => if e.value.text = token then .ok (.int 1) else .ok (.int 0)
    | none => .ok (.int 0)

def Written.inMemory (w : Written) : Json := .str w.text

/-- setnx hands the string to Redis as it is, set its JSON text. -/
def Written.redisText (w : Written) : String := if w.raw then w.text else dumps (.str w.text)

def Written.inRedis (w : Written) : Json := .str w.redisText

def stored (encode : Written → Json) (e : Entry Written) : Entry Json :=
  ⟨encode e.value, e.expiresAt⟩

def Tagged.inMemory (st : Tagged) : Store String Json :=
  fun k => (st k).map (stored Written.inMemory)

def Tagged.ShownBy (st : Tagged) (now : ℕ) (store : Store String Json) : Prop :=
  ∀ k, live store now k = (live st now k).map (stored Written.inRedis)

variable {st : Tagged} {store : Store String Json} {defaultTtl now later : ℕ} {op : CacheOp}

lemma expiry_of_pos {ttl : ℤ} (h : 0 < ttl) : expiry now ttl = now + ttl.toNat * 1000 := by
  unfold expiry
  omega

lemma ttl_of_pos (c : AsyncCache) {ttl : ℤ} (h : 0 < ttl) : c.ttl (some ttl.toNat) = ttl.toNat := by
  obtain ⟨n, hn⟩ : ∃ n, ttl.toNat = n + 1 := ⟨ttl.toNat - 1, by omega⟩
  rw [hn]
  rfl

lemma live_inMemory (st : Tagged) (now : ℕ) (k : String) :
    live st.inMemory now k = (live st now k).map (stored Written.inMemory) := by
  unfold live Tagged.inMemory
  cases st k with
  | none => rfl
  | some e =>
    simp only [Option.map_some, stored]
    split_ifs <;> rfl

lemma inMemory_erase (st : Tagged) (key : String) :
    erase st.inMemory key = (show Tagged from erase st key).inMemory := by
  funext k
  by_cases hk : k = key
  · simp [Tagged.inMemory, hk]
  · simp [Tagged.inMemory, hk]

lemma inMemory_put (st : Tagged) (key : String) (w : Written) (t : ℕ) :
    put st.inMemory key (.str w.text) t = (show Tagged from put st key w t).inMemory := by
  funext k
  by_cases hk : k = key
  · simp [Tagged.inMemory, hk, stored, Written.inMemory]
  · simp [Tagged.inMemory, hk]

/-- The dictionary is the tagged store, whatever is asked. -/
theorem perform_memory (st : Tagged) (defaultTtl now : ℕ) (op : CacheOp) :
    AsyncCache.perform ⟨.memory, defaultTtl, st.inMemory⟩ now op =
      (⟨.memory, defaultTtl, (st.after defaultTtl now op).inMemory⟩, st.answer now op) := by
  cases op with
  | get key =>
    simp only [AsyncCache.perform, AsyncCache.get, live_inMemory, Tagged.after, Tagged.answer]
    cases live st now key with
    | none => simp [inMemory_erase, Except.map]
    | some e => simp [stored, Written.inMemory, Except.map]
  | set key value ttl =>
    simp only [AsyncCache.perform, Tagged.after, Tagged.answer]
    split_ifs with hpos
    · simp only [AsyncCache.set, AsyncCache.write, ttl_of_pos _ hpos, expiry_of_pos hpos,
        ← inMemory_put st key ⟨value, false⟩]
    · simp only [← inMemory_put st key ⟨value, false⟩]
  | setnx key value ttl =>
    simp only [AsyncCache.perform, AsyncCache.setnx, live_inMemory, Tagged.after, Tagged.answer]
    split_ifs with hpos
    · cases live st now key with
      | none =>
        simp [AsyncCache.write, ttl_of_pos _ hpos, expiry_of_pos hpos,
          ← inMemory_put st key ⟨value, true⟩]
      | some e => simp
    · cases live st now key with
      | none => simp [← inMemory_put st key ⟨value, true⟩]
      | some e => simp
  | delete key => simp [AsyncCache.perform, AsyncCache.delete, Tagged.after, Tagged.answer,
      inMemory_erase]
  | eval key token =>
    simp only [AsyncCache.perform, AsyncCache.evalRelease, AsyncCache.delete, Tagged.after,
      Tagged.answer, Tagged.inMemory]
    cases hst : st key with
    | none => simp [Except.map]
    | some e =>
      simp only [Option.map_some, stored, Written.inMemory]
      split_ifs with htoken
      · simp [Except.map, ← inMemory_erase]
      · simp [Except.map]

lemma Tagged.ShownBy.mono (h : st.ShownBy now store) (hle : now ≤ later) :
    st.ShownBy later store := by
  intro k
  rw [live_later hle, live_later hle, h k]
  cases live st now k with
  | none => rfl
  | some e => by_cases hl : later ≤ e.expiresAt <;> simp [Option.filter_some, stored, hl]

lemma Tagged.ShownBy.erase (h : st.ShownBy now store) (key : String) :
    Tagged.ShownBy (ExpiringStore.erase st key) now (ExpiringStore.erase store key) := by
  intro k
  by_cases hk : k = key
  · subst hk
    simp [live_erase_self]
  · simpa [live_erase_of_ne _ hk] using h k

lemma Tagged.ShownBy.drop {key : String} (h : st.ShownBy now store)
    (hexp : live st now key = none) : Tagged.ShownBy (ExpiringStore.erase st key) now store := by
  intro k
  by_cases hk : k = key
  · subst hk
    rw [h k, hexp, live_erase_self]
  · simpa [live_erase_of_ne _ hk] using h k

lemma Tagged.ShownBy.put (h : st.ShownBy now store) (key : String) (w : Written) (t : ℕ) :
    Tagged.ShownBy (ExpiringStore.put st key w t) now
      (ExpiringStore.put store key w.inRedis t) := by
  intro k
  by_cases hk : k = key
  · subst hk
    rw [live_put_self, live_put_self]
    split_ifs <;> rfl
  · simpa [live_put_of_ne _ hk] using h k

lemma eval_redis (h : st.ShownBy now store) (key token : String) :
    AsyncCache.perform ⟨.redis, defaultTtl, store⟩ now (.eval key token) =
      match live st now key with
      | some e =>
        if e.value.redisText = token then
          (⟨.redis, defaultTtl, ExpiringStore.erase store key⟩, .ok (.int 1))
        else (⟨.redis, defaultTtl, store⟩, .ok (.int 0))
      | none => (⟨.redis, defaultTtl, store⟩, .ok (.int 0)) := by
  simp only [AsyncCache.perform, AsyncCache.evalRelease, h key]
  cases live st now key with
  | none => rfl
  | some e =>
    simp only [Option.map_some, stored, Written.inRedis]
    split_ifs <;> rfl

/-- A portable operation: Redis answers as the dictionary does. -/
theorem perform_redis (h : st.ShownBy now store) (hop : st.Portable defaultTtl now op) :
    ∃ store', AsyncCache.perform ⟨.redis, defaultTtl, store⟩ now op =
      (⟨.redis, defaultTtl, store'⟩, st.answer now op) ∧
      (st.after defaultTtl now op).ShownBy now store' := by
  cases op with
  | get key =>
    have hlive := h key
    simp only [AsyncCache.perform, AsyncCache.get, hlive, Tagged.after, Tagged.answer]
    cases he : live st now key with
    | none => exact ⟨store, rfl, h.drop he⟩
    | some e =>
      have hraw : e.value.raw = false := hop e he
      have hloads : loads (dumps (.str e.value.text)) = some (.str e.value.text) :=
        loads_dumps trivial
      refine ⟨store, ?_, h⟩
      simp [stored, Written.inRedis, Written.redisText, hraw, hloads, Except.map]
  | set key value ttl =>
    have hpos : 0 < effectiveTtl defaultTtl ttl := hop
    refine ⟨_, ?_, h.put key ⟨value, false⟩ _⟩
    simp only [AsyncCache.perform, if_pos hpos, AsyncCache.set, AsyncCache.write,
      ttl_of_pos _ hpos, expiry_of_pos hpos, Tagged.answer]
    rfl
  | setnx key value ttl =>
    have hpos : 0 < effectiveTtl defaultTtl ttl := hop
    have hlive := h key
    simp only [AsyncCache.perform, if_pos hpos, AsyncCache.setnx, hlive, Tagged.after,
      Tagged.answer]
    cases live st now key with
    | none =>
      refine ⟨_, ?_, h.put key ⟨value, true⟩ _⟩
      simp only [AsyncCache.write, ttl_of_pos _ hpos, expiry_of_pos hpos]
      rfl
    | some e => exact ⟨store, rfl, h⟩
  | delete key => exact ⟨_, rfl, h.erase key⟩
  | eval key token =>
    rw [eval_redis h]
    simp only [Tagged.after, Tagged.answer]
    cases he : st key with
    | none =>
      have hlive : live st now key = none := by simp [live, he]
      rw [hlive]
      exact ⟨store, rfl, h⟩
    | some e =>
      obtain ⟨hfresh, hstale⟩ := hop e he
      by_cases hexp : now ≤ e.expiresAt
      · have hlive : live st now key = some e := live_eq_some.mpr ⟨he, hexp⟩
        have hsame : e.value.redisText = token ↔ e.value.text = token := by
          unfold Written.redisText
          rcases hfresh hexp with hraw | ⟨htext, hdumps⟩
          · simp [hraw]
          · cases e.value.raw <;> simp [htext.symm, hdumps.symm]
        simp only [hlive, hsame]
        split_ifs
        · exact ⟨_, rfl, h.erase key⟩
        · exact ⟨store, rfl, h⟩
      · have hlive : live st now key = none := by simp [live, he, hexp]
        have htext : e.value.text ≠ token := fun ht => hstale (not_le.mp hexp) ht.symm
        simp only [hlive, if_neg htext]
        exact ⟨store, rfl, h⟩

/-- Any other operation gives the backend away. -/
theorem perform_redis_ne (h : st.ShownBy now store) (hop : ¬ st.Portable defaultTtl now op) :
    (AsyncCache.perform ⟨.redis, defaultTtl, store⟩ now op).2 ≠ st.answer now op := by
  cases op with
  | get key =>
    simp only [Tagged.Portable, not_forall] at hop
    obtain ⟨e, he, hraw⟩ := hop
    have hraw' : e.value.raw = true := by simpa using hraw
    simp only [AsyncCache.perform, AsyncCache.get, h key, he, Option.map_some, stored,
      Written.inRedis, Written.redisText, hraw', if_true, Tagged.answer]
    cases hl : loads e.value.text with
    | none => simp [Except.map]
    | some j =>
      have hne : j ≠ .str e.value.text := fun hj => loads_ne_self e.value.text (hj ▸ hl)
      simp [Except.map, hne]
  | set key value ttl =>
    have hneg : ¬ 0 < effectiveTtl defaultTtl ttl := hop
    simp [AsyncCache.perform, hneg, Tagged.answer]
  | setnx key value ttl =>
    have hneg : ¬ 0 < effectiveTtl defaultTtl ttl := hop
    simp [AsyncCache.perform, hneg, Tagged.answer]
  | delete key => exact absurd trivial hop
  | eval key token =>
    simp only [Tagged.Portable, not_forall] at hop
    obtain ⟨e, he, hdiffers⟩ := hop
    rw [eval_redis h]
    simp only [Tagged.answer, he]
    by_cases hexp : now ≤ e.expiresAt
    · have hlive : live st now key = some e := live_eq_some.mpr ⟨he, hexp⟩
      have hcase : e.value.raw = false ∧
          (token = e.value.text ∨ token = dumps (.str e.value.text)) := by
        by_contra hno
        refine hdiffers ⟨fun _ => ?_, fun hlt => absurd hexp (not_le.mpr hlt)⟩
        cases hraw : e.value.raw with
        | true => exact .inl rfl
        | false => exact .inr (not_or.mp fun ht => hno ⟨hraw, ht⟩)
      obtain ⟨hraw, htoken⟩ := hcase
      have hredis : e.value.redisText = dumps (.str e.value.text) := by
        simp [Written.redisText, hraw]
      have hself := dumps_str_ne_self e.value.text
      simp only [hlive, hredis]
      rcases htoken with rfl | rfl
      · simp [hself]
      · simp [hself.symm]
    · have hlive : live st now key = none := by simp [live, he, hexp]
      have htext : e.value.text = token := by
        by_contra hne
        exact hdiffers ⟨fun hle => absurd hle hexp, fun _ ht => hne ht.symm⟩
      simp [hlive, htext]

/-- The two backends return the same results for a list of operations exactly if each of them is
portable where it is made. -/
theorem backends_agree_iff (defaultTtl start : ℕ) (ops : List (ℕ × CacheOp)) :
    AsyncCache.results ⟨.redis, defaultTtl, fun _ => none⟩ start ops =
        AsyncCache.results ⟨.memory, defaultTtl, fun _ => none⟩ start ops ↔
      Tagged.PortableRun (fun _ => none) defaultTtl start ops := by
  have hrun : ∀ (st : Tagged) (store : Store String Json) (now : ℕ), st.ShownBy now store →
      (AsyncCache.results ⟨.redis, defaultTtl, store⟩ now ops =
        AsyncCache.results ⟨.memory, defaultTtl, st.inMemory⟩ now ops ↔
      st.PortableRun defaultTtl now ops) := by
    induction ops with
    | nil =>
      intro st store now _
      simp [AsyncCache.results, Tagged.PortableRun]
    | cons op ops ih =>
      intro st store now h
      obtain ⟨delay, op⟩ := op
      have hlater : st.ShownBy (now + delay) store := h.mono (Nat.le_add_right _ _)
      simp only [AsyncCache.results, Tagged.PortableRun, perform_memory, List.cons.injEq]
      by_cases hop : st.Portable defaultTtl (now + delay) op
      · obtain ⟨store', hperform, hshown⟩ := perform_redis hlater hop
        have hih := ih _ store' (now + delay) hshown
        simp only [hperform, hop, true_and]
        exact hih
      · have hne := perform_redis_ne hlater hop
        simp [hne, hop]
  refine hrun (fun _ => none) (fun _ => none) start fun k => ?_
  simp [live]

/-- A lock's token, read back through the cache: text that is not JSON on Redis, a string in the
dictionary. -/
def tokenReadBack : List (ℕ × CacheOp) :=
  [(0, .setnx "lock:inventory:1" "f47ac10b" (some 50)), (0, .get "lock:inventory:1")]

theorem backends_disagree_tokenReadBack :
    AsyncCache.results ⟨.redis, 60, fun _ => none⟩ 0 tokenReadBack ≠
      AsyncCache.results ⟨.memory, 60, fun _ => none⟩ 0 tokenReadBack := by
  intro h
  have hredis : (AsyncCache.results ⟨.redis, 60, fun _ => none⟩ 0 tokenReadBack)[1]? =
      some (.error (.valueError "JSONDecodeError")) := rfl
  have hmemory : (AsyncCache.results ⟨.memory, 60, fun _ => none⟩ 0 tokenReadBack)[1]? =
      some (.ok (.str "f47ac10b")) := rfl
  rw [h, hmemory] at hredis
  cases hredis

end AsyncDataHub.Cache
