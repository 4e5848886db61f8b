import GoCoupe.InteractionLoops
import GoCoupe.EvmInstructions
import GoCoupe.EvmGas

/-!
# Running byte code

`Vm.Run` without the compiler: precompiled contracts, jump destinations, the jump table and the
loop, which is a program with fuel. The cache of jump destinations is left out.
-/

namespace GoCoupe.EvmByteCodeLoop

open InteractionPrograms InteractionLoops EvmMachine EvmOpCodes EvmInstructions EvmGas
open BigIntegerWords

structure PrecompiledAccount where
 gas:ℕ→ℤ
 fn:Bytes→Bytes

/-- A price of `base` and `word` for every 32 bytes of input. -/
def linearGas (base word:ℤ) (l:ℕ):ℤ:=((l+31)/32:ℕ)*word+base

def secp256k1n:ℤ:=0xfffffffffffffffffffffffffffffffebaaedce6af48a03bbfd25e8cd0364141

def validateSignatureValues (v:UInt8) (r s:ℤ):Bool:=if r<1 ∨ s<1 then false
 else r < secp256k1n ∧ s < secp256k1n ∧ (v=27 ∨ v=28)

def ecrecoverFunc (crypto:Crypto) (input:Bytes):Bytes:=let input:=rightPadBytes input 128
 let part (lo hi:ℕ):=(input.take hi).drop lo
 let r:=bytesToBig (part 64 96)
 let s:=bytesToBig (part 96 128)
 let vbig:=bytesToBig (part 32 64)
 let v:=UInt8.ofNat (uint64 vbig)
 if !validateSignatureValues v r s then []
 else
  let vnormal:=UInt8.ofNat (uint64 (vbig-27))
  match crypto.ecrecover (part 0 32) (part 64 128++[vnormal]) with
  | none=>[]
  | some pubKey=>
   leftPadBytes (BigEndianBytes.fixed 20 (crypto.sha3 (pubKey.drop 1)).val) 32

def precompiled (crypto:Crypto) (addr:Address):Option PrecompiledAccount:=
 match addr.val with
 | 1=>some ⟨fun _=>Params.ecrecoverGas,ecrecoverFunc crypto⟩
 | 2=>some ⟨linearGas Params.sha256Gas Params.sha256WordGas,crypto.sha256⟩
 | 3=>some ⟨linearGas Params.ripemd160Gas Params.ripemd160WordGas,
  fun input=>leftPadBytes (crypto.ripemd160 input) 32⟩
 | 4=>some ⟨linearGas Params.identityGas Params.identityWordGas,fun input=>input⟩
 | _=>none

/-- How a loop ends: with an error, or with the bytes returned and the gas left. -/
abbrev Halted:=Except VmError (Bytes × ℤ)

def runPrecompiled (p:PrecompiledAccount) (input:Bytes) (gas:ℤ):Halted:=
 if gas<p.gas input.length then .error .outOfGas
 else .ok (p.fn input,gas-p.gas input.length)

/-- The positions of JUMPDEST from `pc` on, stepping over the operands of pushes. -/
def jumpdestsFrom (code:Bytes):ℕ→ℕ→List ℕ
 | 0,_=>[]
 | fuel+1,pc=>
  if pc<code.length then
   match getOp code pc with
   | .PUSH n=>jumpdestsFrom code fuel (pc+(n+1)+1)
   | .JUMPDEST=>pc::jumpdestsFrom code fuel (pc+1)
   | _=>jumpdestsFrom code fuel (pc+1)
  else []

def jumpdests (code:Bytes):List ℕ:=jumpdestsFrom code code.length 0

def hasDest (code:Bytes) (dest:ℤ):Bool:=if dest>2^64-1 then false else uint64 dest∈jumpdests code

def jump (c:Contract) (dest:ℤ):Vm ℕ:=
 if !hasDest c.code dest then Vm.throw (.invalidJump (getOp c.code (uint64 dest)) dest)
 else return uint64 dest

structure JumpPtr where
 fn:Option InstrFn
 valid:Bool

/-- The opcodes without a function are treated by the loop itself. -/
def jumpTable (env:Environment) (c:Contract):OpCode→JumpPtr
 | .ADD=>⟨some (plain opAdd),true⟩
 | .SUB=>⟨some (plain opSub),true⟩
 | .MUL=>⟨some (plain opMul),true⟩
 | .DIV=>⟨some (plain opDiv),true⟩
 | .SDIV=>⟨some (plain opSdiv),true⟩
 | .MOD=>⟨some (plain opMod),true⟩
 | .SMOD=>⟨some (plain opSmod),true⟩
 | .EXP=>⟨some (plain opExp),true⟩
 | .SIGNEXTEND=>⟨some (plain opSignExtend),true⟩
 | .NOT=>⟨some (plain opNot),true⟩
 | .LT=>⟨some (plain opLt),true⟩
 | .GT=>⟨some (plain opGt),true⟩
 | .SLT=>⟨some (plain opSlt),true⟩
 | .SGT=>⟨some (plain opSgt),true⟩
 | .EQ=>⟨some (plain opEq),true⟩
 | .ISZERO=>⟨some (plain opIszero),true⟩
 | .AND=>⟨some (plain opAnd),true⟩
 | .OR=>⟨some (plain opOr),true⟩
 | .XOR=>⟨some (plain opXor),true⟩
 | .BYTE=>⟨some (plain opByte),true⟩
 | .ADDMOD=>⟨some (plain opAddmod),true⟩
 | .MULMOD=>⟨some (plain opMulmod),true⟩
 | .SHA3=>⟨some (plain (opSha3 env)),true⟩
 | .ADDRESS=>⟨some (plain (opAddress c)),true⟩
 | .BALANCE=>⟨some (plain opBalance),true⟩
 | .ORIGIN=>⟨some (plain (opOrigin env)),true⟩
 | .CALLER=>⟨some (plain (opCaller c)),true⟩
 | .CALLVALUE=>⟨some (plain (opCallValue c)),true⟩
 | .CALLDATALOAD=>⟨some (plain (opCalldataLoad c)),true⟩
 | .CALLDATASIZE=>⟨some (plain (opCalldataSize c)),true⟩
 | .CALLDATACOPY=>⟨some (plain (opCalldataCopy c)),true⟩
 | .CODESIZE=>⟨some (plain (opCodeSize c)),true⟩
 | .EXTCODESIZE=>⟨some (plain opExtCodeSize),true⟩
 | .CODECOPY=>⟨some (plain (opCodeCopy c)),true⟩
 | .EXTCODECOPY=>⟨some (plain opExtCodeCopy),true⟩
 | .GASPRICE=>⟨some (plain (opGasprice c)),true⟩
 | .BLOCKHASH=>⟨some (plain (opBlockhash env)),true⟩
 | .COINBASE=>⟨some (plain (opCoinbase env)),true⟩
 | .TIMESTAMP=>⟨some (plain (opTimestamp env)),true⟩
 | .NUMBER=>⟨some (plain (opNumber env)),true⟩
 | .DIFFICULTY=>⟨some (plain (opDifficulty env)),true⟩
 | .GASLIMIT=>⟨some (plain (opGasLimit env)),true⟩
 | .POP=>⟨some (plain opPop),true⟩
 | .MLOAD=>⟨some (plain opMload),true⟩
 | .MSTORE=>⟨some (plain opMstore),true⟩
 | .MSTORE8=>⟨some (plain opMstore8),true⟩
 | .SLOAD=>⟨some (plain (opSload c)),true⟩
 | .SSTORE=>⟨some (plain (opSstore c)),true⟩
 | .JUMPDEST=>⟨some (plain opJumpdest),true⟩
 | .PC=>⟨none,true⟩
 | .MSIZE=>⟨some (plain opMsize),true⟩
 | .GAS=>⟨some (plain opGas),true⟩
 | .CREATE=>⟨some (plain (opCreate c)),true⟩
 | .CALL=>⟨some (plain (opCall c)),true⟩
 | .CALLCODE=>⟨some (plain (opCallCode c)),true⟩
 | .LOG n=>⟨some (makeLog env c n),true⟩
 | .SWAP n=>⟨some (makeSwap (n+1)),true⟩
 | .PUSH n=>⟨some (makePush c (n+1)),true⟩
 | .DUP n=>⟨some (makeDup (n+1)),true⟩
 | .RETURN=>⟨none,true⟩
 | .SUICIDE=>⟨none,true⟩
 | .JUMP=>⟨none,true⟩
 | .JUMPI=>⟨none,true⟩
 | .STOP=>⟨none,true⟩
 | .invalid _=>⟨none,false⟩

/-- One turn of the loop after the instruction has been paid for: the next program counter,
or the bytes to return. -/
def execOp (env:Environment) (c:Contract) (op:OpCode) (pc:ℕ):Vm (ℕ ⊕ Bytes):=do
 let opPtr:=jumpTable env c op
 if opPtr.valid then
  match opPtr.fn with
  | some fn=>return .inl ((← fn none pc)+1)
  | none=>
   match op with
   | .PC=>return .inl ((← opPc (some pc) pc)+1)
   | .JUMP=>return .inl (← jump c (← pop))
   | .JUMPI=>
    let pos ← pop
    let cond ← pop
    if cond≥1 then return .inl (← jump c pos) else return .inl (pc+1)
   | .RETURN=>
    let offset ← pop
    let size ← pop
    return .inr (← memoryGetPtr (int64 offset) (int64 size))
   | .SUICIDE=>
    opSuicide c
    return .inr []
   | .STOP=>return .inr []
   | _=>return .inl (pc+1)
 else Vm.throw (.invalidOpcode op)

/-- One turn of the loop of `Vm.Run`. -/
def byteStep (env:Environment) (c:Contract) (pc:ℕ):Vm (ℕ ⊕ Bytes):=do
 let op:=getOp c.code pc
 prepare (calculateGasAndSize c op)
 execOp env c op pc

def loopStep (turn:ℕ→Vm (ℕ ⊕ Bytes)) (u:ℕ × Frame):Prog Query.Answer ((ℕ × Frame) ⊕ Halted):=
 turn u.1 u.2>>=fun
  | .error e=>.done (.inr (.error e))
  | .ok (.inl pc,f)=>.done (.inl (pc,f))
  | .ok (.inr ret,f)=>.done (.inr (.ok (ret,f.gas)))

/-- What `Vm.Run` hands back: the bytes returned, the error if any, and the gas that the
caller gets; an error uses all the gas up. -/
structure RunResult where
 ret:Bytes
 err:Option VmError
 gas:ℤ

def settle:Halted→RunResult
 | .ok (ret,gas)=>⟨ret,none,gas⟩
 | .error e=>⟨[],some e,0⟩

/-- `Vm.Run` around a loop: precompiled contracts and empty code do not get there. -/
def runWith (loop:Prog Query.Answer (Option Halted)) (env:Environment) (c:Contract)
 (gas:ℤ):Prog Query.Answer (Option RunResult):=
 match c.codeAddr.bind (precompiled env.crypto) with
 | some p=>.done (some (settle (runPrecompiled p c.input gas)))
 | none=>
  if c.code.length=0 then .done (some ⟨[],none,gas⟩)
  else loop>>=fun o=>.done (o.map settle)

/-- `Vm.Run` with the byte-code loop; `none` when the fuel runs out. -/
def run (fuel:ℕ) (env:Environment) (c:Contract) (gas:ℤ):Prog Query.Answer (Option RunResult):=
 runWith (iterate (loopStep (byteStep env c)) fuel (0,.init gas)) env c gas

end GoCoupe.EvmByteCodeLoop
