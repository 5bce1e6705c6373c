/-!
# Kinds of failure

The kinds of failure form a tree; the lineage of a kind leads from it up to the root.
-/

namespace Chip8

inductive FailureKind where
  | general
  | startup
  | configuration
  | runtime
  | unsupportedInstruction
  | stackOverflow
  | stackUnderflow
  deriving DecidableEq, Repr

namespace FailureKind

/-- The kinds from this one up to the most general. -/
def lineage : FailureKind → List FailureKind
  | .general => [.general]
  | .startup => [.startup, .general]
  | .configuration => [.configuration, .general]
  | .runtime => [.runtime, .general]
  | .unsupportedInstruction => [.unsupportedInstruction, .runtime, .general]
  | .stackOverflow => [.stackOverflow, .runtime, .general]
  | .stackUnderflow => [.stackUnderflow, .runtime, .general]

def isRuntime (k : FailureKind) : Bool :=
  k.lineage.contains .runtime

end FailureKind

end Chip8
