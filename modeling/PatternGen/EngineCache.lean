import PatternGen.Cache
import PatternGen.Engine

/-!
# The cache of engines

Engines by what they are compiled from. Every engine has a number of its own, by which two engines
that are compiled from the same text can be told apart.
-/

namespace PatternGen

/-- What an engine is compiled from (`CacheKey`). A strict pattern sets its flags itself. -/
structure EngineKey where
  dialect : Dialect
  source : String
  flags : String := ""
deriving DecidableEq

/-- An engine, and the number of the request that it was compiled for. -/
structure NumberedEngine where
  number : Nat
  engine : Engine

/-- A cache of engines, and the number of requests so far. -/
structure EngineCache where
  cache : Cache EngineKey NumberedEngine
  requests : Nat := 0

namespace EngineCache

/-- The most engines that a cache keeps (`CACHE_CAPACITY`). -/
def capacity : Nat := 1024

def empty : EngineCache := { cache := { capacity } }

/-- The engine of a key, compiled if need be (`cached`; `engine_for` if the key is strict). -/
def engineFor (engines : EngineCache) (key : EngineKey) :
    Except Error NumberedEngine × EngineCache :=
  let compile (key : EngineKey) : Except Error NumberedEngine :=
    (Engine.compile key.dialect key.source key.flags).map (⟨engines.requests, ·⟩)
  let (result, cache) := engines.cache.getOrCompute compile key
  (result, ⟨cache, engines.requests + 1⟩)

/-- A random string of the engine of a key (`randexp`, or `sample` if the key is strict). -/
def sample {σ : Type} (engines : EngineCache) (sampler : Sampler σ) (source : σ) (key : EngineKey) :
    Except Error String × σ × EngineCache :=
  match engines.engineFor key with
  | (.error e, engines) => (.error e, source, engines)
  | (.ok e, engines) =>
    let (result, source) := e.engine.generate sampler none source
    (result.map (·.output), source, engines)

end EngineCache

end PatternGen
