/-!
# Caches of bounded size

A cache holds values by key, and is emptied before a value for a new key would make it too large.
A value is computed between two steps that are each taken at once: a look-up, and after a miss the
insertion of what was computed. Where several callers compute a value for one key, the first
insertion wins.
-/

namespace PatternGen

/-- Values by key, at most `capacity` of them. -/
structure Cache (κ ν : Type) where
  capacity : Nat
  entries : List (κ × ν) := []

namespace Cache

variable {κ ν ε : Type} [BEq κ]

/-- The value of a key. -/
def get? (cache : Cache κ ν) (key : κ) : Option ν := cache.entries.lookup key

/-- Inserts the value that was computed for a key, unless the key has one: what `get_or_compile`
does under its second lock. Gives the value that the key then has. -/
def insert (cache : Cache κ ν) (key : κ) (value : ν) : ν × Cache κ ν :=
  match cache.get? key with
  | some present => (present, cache)
  | none =>
    let kept := if cache.capacity ≤ cache.entries.length then [] else cache.entries
    (value, { cache with entries := (key, value) :: kept })

/-- The value of a key, which is computed if the cache has none (`get_or_compile`). A failure
changes nothing. -/
def getOrCompute (cache : Cache κ ν) (compute : κ → Except ε ν) (key : κ) :
    Except ε ν × Cache κ ν :=
  match cache.get? key with
  | some present => (.ok present, cache)
  | none =>
    match compute key with
    | .error e => (.error e, cache)
    | .ok value =>
      let (value, cache) := cache.insert key value
      (.ok value, cache)

end Cache

end PatternGen
