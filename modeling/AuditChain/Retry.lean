/-!
# Retries

How often an append is tried again, and how long it waits before each retry.

## Main definitions

* `Duration` — a length of time to the nanosecond, with a greatest length.
* `Duration.scale?` — a multiple of a duration, unless it exceeds the greatest one.
* `RetryPolicy` — the bounds on retries.
* `RetryPolicy.backoff` — the wait before a retry.
-/

namespace AuditChain

/-- The greatest length of time, in nanoseconds: one short of `2 ^ 64` seconds. -/
def maxNanos : Nat := 18446744073709551616 * 1000000000 - 1

/-- A length of time, to the nanosecond. -/
structure Duration where
  /-- The number of nanoseconds. -/
  nanos : Nat
  /-- It does not exceed the greatest length. -/
  nanos_le : nanos ≤ maxNanos
  deriving DecidableEq, Repr

namespace Duration

@[ext] theorem ext {a b : Duration} (h : a.nanos = b.nanos) : a = b := by
  cases a; cases b; simp_all

/-- The length of so many nanoseconds, if there is one. -/
def of? (nanos : Nat) : Option Duration :=
  if h : nanos ≤ maxNanos then some ⟨nanos, h⟩ else none

/-- The length of so many milliseconds. -/
def ofMillis (ms : UInt64) : Duration :=
  ⟨ms.toNat * 1000000, by have := ms.toNat_lt; unfold maxNanos; omega⟩

/-- The whole seconds of a length of time. -/
def seconds (d : Duration) : Nat :=
  d.nanos / 1000000000

/-- The nanoseconds past the whole seconds. -/
def subsecond (d : Duration) : Nat :=
  d.nanos % 1000000000

/-- A multiple of a length of time, unless it exceeds the greatest length. -/
def scale? (d : Duration) (factor : Nat) : Option Duration :=
  of? (d.nanos * factor)

/-- The shorter of two lengths of time. -/
protected def min (a b : Duration) : Duration :=
  if a.nanos ≤ b.nanos then a else b

end Duration

/-- The bounds on how hard an append is retried. -/
structure RetryPolicy where
  /-- How many attempts may race for a sequence. -/
  maxAttempts : UInt32 := 8
  /-- How many times an unavailable store is asked again. -/
  maxTransientRetries : UInt32 := 5
  /-- The wait before the first retry. -/
  backoffBase : Duration := Duration.ofMillis 5
  /-- The longest wait. -/
  backoffMax : Duration := Duration.ofMillis 500
  deriving DecidableEq, Repr

namespace RetryPolicy

/-- The wait before a retry, counted from one: the base, doubled with every retry up to the
thirty-second, and never more than the longest wait. -/
def backoff (p : RetryPolicy) (retry : Nat) : Duration :=
  match p.backoffBase.scale? (Nat.pow 2 (min (retry - 1) 31)) with
  | some d => d.min p.backoffMax
  | none => p.backoffMax

/-- How many attempts may race for a sequence; at least one. -/
def attempts (p : RetryPolicy) : Nat :=
  max p.maxAttempts.toNat 1

/-- How many times an unavailable store is asked again. -/
def transientRetries (p : RetryPolicy) : Nat :=
  p.maxTransientRetries.toNat

end RetryPolicy

end AuditChain
