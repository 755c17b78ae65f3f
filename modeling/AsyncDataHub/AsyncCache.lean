import AsyncDataHub.PyError
import AsyncDataHub.ExpiringStore
import AsyncDataHub.JsonRoundtrip

/-! The cache wrapper: Redis, or a dictionary in memory when that fallback is allowed. Time is
counted in milliseconds. -/
namespace AsyncDataHub.Cache
open ExpiringStore PyJson

inductive Backend
  | redis
  | memory
  | disabled
  deriving DecidableEq

/-- Redis holds text, which is a `Json.str` here; the dictionary holds any value. -/
structure AsyncCache where
  backend : Backend
  defaultTtlSeconds : ℕ
  store : Store String Json

/-- `ttl_seconds or self._default_ttl_seconds`. -/
def AsyncCache.ttl (c : AsyncCache) (ttlSeconds : Option ℕ) : ℕ :=
  match ttlSeconds with
  | none => c.defaultTtlSeconds
  | some 0 => c.defaultTtlSeconds
  | some n => n

def AsyncCache.write (c : AsyncCache) (now : ℕ) (key : String) (value : Json) (ttl : ℕ) :
    AsyncCache :=
  { c with store := put c.store key value (now + ttl * 1000) }

/-- Redis answers with the decoded text, the dictionary with the value as it was stored. -/
def AsyncCache.get (c : AsyncCache) (now : ℕ) (key : String) :
    AsyncCache × Except PyError (Option Json) :=
  match c.backend with
  | .redis =>
    match live c.store now key with
    | none => (c, .ok none)
    | some e =>
      match e.value with
      | .str text =>
        match loads text with
        | some j => (c, .ok (some j))
        | none => (c, .error (.valueError "JSONDecodeError"))
      | _ => (c, .error (.typeError "the JSON object must be str, bytes or bytearray"))
  | .disabled => (c, .ok none)
  | .memory =>
    match live c.store now key with
    | none => ({ c with store := erase c.store key }, .ok none)
    | some e => (c, .ok (some e.value))

def AsyncCache.set (c : AsyncCache) (now : ℕ) (key : String) (value : Json)
    (ttlSeconds : Option ℕ) : AsyncCache :=
  match c.backend with
  | .redis => c.write now key (.str (dumps value)) (c.ttl ttlSeconds)
  | .disabled => c
  | .memory => c.write now key value (c.ttl ttlSeconds)

def AsyncCache.delete (c : AsyncCache) (key : String) : AsyncCache :=
  { c with store := erase c.store key }

/-- The value is stored as it is on both backends; every caller passes a string. -/
def AsyncCache.setnx (c : AsyncCache) (now : ℕ) (key : String) (value : String)
    (ttlSeconds : Option ℕ) : AsyncCache × Bool :=
  match c.backend with
  | .disabled => (c, false)
  | _ =>
    match live c.store now key with
    | some _ => (c, false)
    | none => (c.write now key (.str value) (c.ttl ttlSeconds), true)

/-- `eval` of the lock release script, the only script there is: delete the entry if it carries
the token. The dictionary does not look at the expiry here. -/
def AsyncCache.evalRelease (c : AsyncCache) (now : ℕ) (key token : String) :
    AsyncCache × Except PyError ℕ :=
  match c.backend with
  | .disabled =>
    (c, .error (.notImplementedError
      "Lua script evaluation is not supported in in-memory fallback."))
  | .redis =>
    match live c.store now key with
    | some ⟨.str v, _⟩ => if v = token then (c.delete key, .ok 1) else (c, .ok 0)
    | _ => (c, .ok 0)
  | .memory =>
    match c.store key with
    | some ⟨.str v, _⟩ => if v = token then (c.delete key, .ok 1) else (c, .ok 0)
    | _ => (c, .ok 0)

@[simp] theorem write_store (c : AsyncCache) (now : ℕ) (key : String) (v : Json) (ttl : ℕ) :
    (c.write now key v ttl).store = put c.store key v (now + ttl * 1000) := rfl

@[simp] theorem write_backend (c : AsyncCache) (now : ℕ) (key : String) (v : Json) (ttl : ℕ) :
    (c.write now key v ttl).backend = c.backend := rfl

@[simp] theorem delete_store (c : AsyncCache) (key : String) :
    (c.delete key).store = erase c.store key := rfl

@[simp] theorem delete_backend (c : AsyncCache) (key : String) :
    (c.delete key).backend = c.backend := rfl

@[simp] theorem set_backend (c : AsyncCache) (now : ℕ) (key : String) (v : Json) (ttl : Option ℕ) :
    (c.set now key v ttl).backend = c.backend := by
  unfold AsyncCache.set
  split <;> rfl

/-- setnx succeeds exactly when there is no live entry, and then stores the value as it is. -/
theorem setnx_cases (c : AsyncCache) (now : ℕ) (key value : String) (ttl : Option ℕ) :
    (c.setnx now key value ttl = (c, false) ∧
      (c.backend = .disabled ∨ ∃ e, live c.store now key = some e)) ∨
    (c.setnx now key value ttl = (c.write now key (.str value) (c.ttl ttl), true) ∧
      c.backend ≠ .disabled ∧ live c.store now key = none) := by
  unfold AsyncCache.setnx
  split
  · rename_i h
    exact .inl ⟨rfl, .inl h⟩
  · rename_i h
    split
    · rename_i e he
      exact .inl ⟨rfl, .inr ⟨e, he⟩⟩
    · rename_i he
      exact .inr ⟨rfl, fun hd => h hd, he⟩

theorem evalRelease_cases (c : AsyncCache) (now : ℕ) (key token : String) :
    (c.evalRelease now key token).1 = c ∨
    ((∃ e, c.store key = some e ∧ e.value = .str token) ∧
      (c.evalRelease now key token).1 = c.delete key) := by
  unfold AsyncCache.evalRelease
  split
  · exact .inl rfl
  · split
    · rename_i v expiresAt he
      have hentry := (live_eq_some.mp he).1
      split_ifs with hv
      · exact .inr ⟨⟨_, hentry, by rw [hv]⟩, rfl⟩
      · exact .inl rfl
    · exact .inl rfl
  · split
    · rename_i v expiresAt he
      split_ifs with hv
      · exact .inr ⟨⟨_, he, by rw [hv]⟩, rfl⟩
      · exact .inl rfl
    · exact .inl rfl

theorem get_cache (c : AsyncCache) (now : ℕ) (key : String) :
    (c.get now key).1 = c ∨
    (c.backend = .memory ∧ live c.store now key = none ∧
      (c.get now key).1 = { c with store := erase c.store key }) := by
  unfold AsyncCache.get
  split
  · left
    split
    · rfl
    · split
      · split <;> rfl
      · rfl
  · exact .inl rfl
  · rename_i hb
    split
    · rename_i he
      exact .inr ⟨hb, he, rfl⟩
    · exact .inl rfl

theorem get_backend (c : AsyncCache) (now : ℕ) (key : String) :
    (c.get now key).1.backend = c.backend := by
  rcases get_cache c now key with h | ⟨_, _, h⟩ <;> rw [h]

end AsyncDataHub.Cache
