import GraphGateway.Json.Basic

/-!
This module contains the counters of a gateway. They only ever grow.
-/

namespace GraphGateway

structure Counters where
  requests : Nat
  cacheHits : Nat
  cacheMisses : Nat
  parses : Nat
  compilations : Nat
  syntaxErrors : Nat
  compilationErrors : Nat
  executionErrors : Nat
  internalFaults : Nat
deriving DecidableEq, Repr

namespace Counters

def zero : Counters :=
  ⟨0, 0, 0, 0, 0, 0, 0, 0, 0⟩

def toJson (counters : Counters) : Json :=
  .object
    [ ("requests", .int counters.requests),
      ("cache_hits", .int counters.cacheHits),
      ("cache_misses", .int counters.cacheMisses),
      ("parses", .int counters.parses),
      ("compilations", .int counters.compilations),
      ("syntax_errors", .int counters.syntaxErrors),
      ("compilation_errors", .int counters.compilationErrors),
      ("execution_errors", .int counters.executionErrors),
      ("internal_faults", .int counters.internalFaults)
    ]

end Counters

end GraphGateway
