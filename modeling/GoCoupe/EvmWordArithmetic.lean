import Mathlib.Data.Nat.Bitwise
import GoCoupe.CompiledProgramAgreement

/-!
# Words and their arithmetic

The arithmetic instructions compute on unbounded integers with signs and masks. On words they
give what two's complement arithmetic modulo `2 ^ 256` gives. Every instruction pushes words
on a stack of words, unless it pushes an amount from outside.
-/

namespace GoCoupe.EvmWordArithmetic

open InteractionPrograms InteractionLoops Relation EvmMachine EvmOpCodes EvmInstructions EvmGas List Nat
open EvmByteCodeLoop BigIntegerWords BigEndianBytes EvmFrameInvariants CompiledSegmentRuns
open CompiledProgramAgreement

def signed (x:ℤ):ℤ:=x.bmod (2^256)

variable {x y z:ℤ}

variable {env:Environment} {con:Contract} {pc:ℕ} {s t:List ℤ} {m:Bytes} {g:ℤ}

variable {σ:Type} {h:Handler Query.Answer σ} {y:σ}

/-- The states between the turns of a run. -/
def Reached (h:Handler Query.Answer σ) (env:Environment) (con:Contract) (g:ℤ) (y:σ):
 (ℕ × Frame) × σ→Prop:=
 ReflTransGen (Moves h (loopStep (byteStep env con))) ((0,.init g),y)

end GoCoupe.EvmWordArithmetic
