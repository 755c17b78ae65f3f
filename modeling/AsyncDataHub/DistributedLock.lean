import AsyncDataHub.AsyncCache

/-! The Redis lock: one entry per lock name that carries the token of its holder. -/
namespace AsyncDataHub.Lock
open Cache ExpiringStore

structure DistributedLock where
  lockName : String
  lockToken : String
  ttlSeconds : ℕ := 50

/-- The default `timeout_seconds` of acquire, in milliseconds. -/
def acquireTimeout : ℕ := 5 * 1000

def DistributedLock.poll (l : DistributedLock) (cache : AsyncCache) (now : ℕ) :
    AsyncCache × Bool :=
  cache.setnx now l.lockName l.lockToken (some l.ttlSeconds)

def DistributedLock.release (l : DistributedLock) (cache : AsyncCache) (now : ℕ) :
    AsyncCache × Except PyError ℕ :=
  cache.evalRelease now l.lockName l.lockToken

variable {l : DistributedLock} {cache cache' : AsyncCache} {now : ℕ}

lemma poll_eq_true (h : l.poll cache now = (cache', true)) :
    live cache.store now l.lockName = none ∧
      cache' = cache.write now l.lockName (.str l.lockToken) (cache.ttl (some l.ttlSeconds)) := by
  have hsetnx : cache.setnx now l.lockName l.lockToken (some l.ttlSeconds) = (cache', true) := h
  rcases setnx_cases cache now l.lockName l.lockToken (some l.ttlSeconds) with
    ⟨hfail, -⟩ | ⟨htook, -, hfree⟩
  · rw [hsetnx] at hfail
    cases hfail
  · rw [hsetnx] at htook
    exact ⟨hfree, congrArg Prod.fst htook⟩

lemma cache_of_release {r : Except PyError ℕ} (h : l.release cache now = (cache', r)) :
    cache' = cache ∨ ((∃ e, cache.store l.lockName = some e ∧ e.value = .str l.lockToken) ∧
      cache' = cache.delete l.lockName) := by
  have heval : cache.evalRelease now l.lockName l.lockToken = (cache', r) := h
  have hcases := evalRelease_cases cache now l.lockName l.lockToken
  rwa [heval] at hcases

end AsyncDataHub.Lock
