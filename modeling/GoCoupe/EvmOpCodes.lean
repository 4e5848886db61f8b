import Mathlib.Data.Nat.Notation
import Mathlib.Data.Int.Notation
import GoCoupe.CommonTypes

/-!
# Opcodes and their base prices

The opcodes of the virtual machine, how a byte of code names one, and the table
`_baseCheck` of stack needs and base prices that both execution loops consult.
-/

namespace GoCoupe.EvmOpCodes

instance neZero_pushes:NeZero 32:=⟨Nat.succ_ne_zero 31⟩

/-- The families take an index: `PUSH n` is PUSHn+1, `DUP n` and `SWAP n` likewise, and
`LOG n` is LOGn. A byte that no opcode claims is `invalid`. -/
inductive OpCode where
 | STOP | ADD | MUL | SUB | DIV | SDIV | MOD | SMOD | ADDMOD | MULMOD | EXP | SIGNEXTEND
 | LT | GT | SLT | SGT | EQ | ISZERO | AND | OR | XOR | NOT | BYTE
 | SHA3
 | ADDRESS | BALANCE | ORIGIN | CALLER | CALLVALUE | CALLDATALOAD | CALLDATASIZE
 | CALLDATACOPY | CODESIZE | CODECOPY | GASPRICE | EXTCODESIZE | EXTCODECOPY
 | BLOCKHASH | COINBASE | TIMESTAMP | NUMBER | DIFFICULTY | GASLIMIT
 | POP | MLOAD | MSTORE | MSTORE8 | SLOAD | SSTORE | JUMP | JUMPI | PC | MSIZE | GAS
 | JUMPDEST
 | PUSH (n:Fin 32) | DUP (n:Fin 16) | SWAP (n:Fin 16) | LOG (n:Fin 5)
 | CREATE | CALL | CALLCODE | RETURN | SUICIDE
 | invalid (b:UInt8)
 deriving DecidableEq,Repr

namespace OpCode

def ofByte (b:UInt8):OpCode:=
 match b.toNat with
 | 0x00=>STOP
 | 0x01=>ADD
 | 0x02=>MUL
 | 0x03=>SUB
 | 0x04=>DIV
 | 0x05=>SDIV
 | 0x06=>MOD
 | 0x07=>SMOD
 | 0x08=>ADDMOD
 | 0x09=>MULMOD
 | 0x0a=>EXP
 | 0x0b=>SIGNEXTEND
 | 0x10=>LT
 | 0x11=>GT
 | 0x12=>SLT
 | 0x13=>SGT
 | 0x14=>EQ
 | 0x15=>ISZERO
 | 0x16=>AND
 | 0x17=>OR
 | 0x18=>XOR
 | 0x19=>NOT
 | 0x1a=>BYTE
 | 0x20=>SHA3
 | 0x30=>ADDRESS
 | 0x31=>BALANCE
 | 0x32=>ORIGIN
 | 0x33=>CALLER
 | 0x34=>CALLVALUE
 | 0x35=>CALLDATALOAD
 | 0x36=>CALLDATASIZE
 | 0x37=>CALLDATACOPY
 | 0x38=>CODESIZE
 | 0x39=>CODECOPY
 | 0x3a=>GASPRICE
 | 0x3b=>EXTCODESIZE
 | 0x3c=>EXTCODECOPY
 | 0x40=>BLOCKHASH
 | 0x41=>COINBASE
 | 0x42=>TIMESTAMP
 | 0x43=>NUMBER
 | 0x44=>DIFFICULTY
 | 0x45=>GASLIMIT
 | 0x50=>POP
 | 0x51=>MLOAD
 | 0x52=>MSTORE
 | 0x53=>MSTORE8
 | 0x54=>SLOAD
 | 0x55=>SSTORE
 | 0x56=>JUMP
 | 0x57=>JUMPI
 | 0x58=>PC
 | 0x59=>MSIZE
 | 0x5a=>GAS
 | 0x5b=>JUMPDEST
 | 0xf0=>CREATE
 | 0xf1=>CALL
 | 0xf2=>CALLCODE
 | 0xf3=>RETURN
 | 0xff=>SUICIDE
 | n=>
  if 0x60≤n ∧ n≤0x7f then PUSH (Fin.ofNat 32 (n-0x60))
  else if 0x80≤n ∧ n≤0x8f then DUP (Fin.ofNat 16 (n-0x80))
  else if 0x90≤n ∧ n≤0x9f then SWAP (Fin.ofNat 16 (n-0x90))
  else if 0xa0≤n ∧ n≤0xa4 then LOG (Fin.ofNat 5 (n-0xa0))
  else invalid b

def isPush:OpCode→Bool
 | PUSH _=>true
 | _=>false

def isStaticJump (op:OpCode):Bool:=op=JUMP

/-- The number of bytes of code that follow the opcode as its operand. -/
def dataSize:OpCode→ℕ
 | PUSH n=>n+1
 | _=>0

end OpCode

def gasQuickStep:ℤ:=2
def gasFastestStep:ℤ:=3
def gasFastStep:ℤ:=5
def gasMidStep:ℤ:=8
def gasSlowStep:ℤ:=10
def gasExtStep:ℤ:=20

namespace Params

def sloadGas:ℤ:=50
def sstoreSetGas:ℤ:=20000
def sstoreClearGas:ℤ:=5000
def sstoreRefundGas:ℤ:=15000
def suicideRefundGas:ℤ:=24000
def sha3Gas:ℤ:=30
def sha3WordGas:ℤ:=6
def copyGas:ℤ:=3
def expByteGas:ℤ:=10
def logGas:ℤ:=375
def logTopicGas:ℤ:=375
def logDataGas:ℤ:=8
def jumpdestGas:ℤ:=1
def memoryGas:ℤ:=3
def quadCoeffDiv:ℤ:=512
def stackLimit:ℕ:=1024
def createGas:ℤ:=32000
def createDataGas:ℤ:=200
def callGas:ℤ:=40
def callNewAccountGas:ℤ:=25000
def callValueTransferGas:ℤ:=9000
def callStipend:ℤ:=2300
def callCreateDepth:ℕ:=1024
def ecrecoverGas:ℤ:=3000
def sha256Gas:ℤ:=60
def sha256WordGas:ℤ:=12
def ripemd160Gas:ℤ:=600
def ripemd160WordGas:ℤ:=120
def identityGas:ℤ:=15
def identityWordGas:ℤ:=3
def txGas:ℤ:=21000
def txDataZeroGas:ℤ:=4
def txDataNonZeroGas:ℤ:=68

end Params

structure Req where
 stackPop:ℕ
 gas:ℤ
 stackPush:ℕ

/-- The table `_baseCheck`; of the pushes and duplications only the first is listed. -/
def baseCheckTable:OpCode→Option Req
 | .ADD=>some ⟨2,gasFastestStep,1⟩
 | .LT=>some ⟨2,gasFastestStep,1⟩
 | .GT=>some ⟨2,gasFastestStep,1⟩
 | .SLT=>some ⟨2,gasFastestStep,1⟩
 | .SGT=>some ⟨2,gasFastestStep,1⟩
 | .EQ=>some ⟨2,gasFastestStep,1⟩
 | .ISZERO=>some ⟨1,gasFastestStep,1⟩
 | .SUB=>some ⟨2,gasFastestStep,1⟩
 | .AND=>some ⟨2,gasFastestStep,1⟩
 | .OR=>some ⟨2,gasFastestStep,1⟩
 | .XOR=>some ⟨2,gasFastestStep,1⟩
 | .NOT=>some ⟨1,gasFastestStep,1⟩
 | .BYTE=>some ⟨2,gasFastestStep,1⟩
 | .CALLDATALOAD=>some ⟨1,gasFastestStep,1⟩
 | .CALLDATACOPY=>some ⟨3,gasFastestStep,1⟩
 | .MLOAD=>some ⟨1,gasFastestStep,1⟩
 | .MSTORE=>some ⟨2,gasFastestStep,0⟩
 | .MSTORE8=>some ⟨2,gasFastestStep,0⟩
 | .CODECOPY=>some ⟨3,gasFastestStep,0⟩
 | .MUL=>some ⟨2,gasFastStep,1⟩
 | .DIV=>some ⟨2,gasFastStep,1⟩
 | .SDIV=>some ⟨2,gasFastStep,1⟩
 | .MOD=>some ⟨2,gasFastStep,1⟩
 | .SMOD=>some ⟨2,gasFastStep,1⟩
 | .SIGNEXTEND=>some ⟨2,gasFastStep,1⟩
 | .ADDMOD=>some ⟨3,gasMidStep,1⟩
 | .MULMOD=>some ⟨3,gasMidStep,1⟩
 | .JUMP=>some ⟨1,gasMidStep,0⟩
 | .JUMPI=>some ⟨2,gasSlowStep,0⟩
 | .EXP=>some ⟨2,gasSlowStep,1⟩
 | .ADDRESS=>some ⟨0,gasQuickStep,1⟩
 | .ORIGIN=>some ⟨0,gasQuickStep,1⟩
 | .CALLER=>some ⟨0,gasQuickStep,1⟩
 | .CALLVALUE=>some ⟨0,gasQuickStep,1⟩
 | .CODESIZE=>some ⟨0,gasQuickStep,1⟩
 | .GASPRICE=>some ⟨0,gasQuickStep,1⟩
 | .COINBASE=>some ⟨0,gasQuickStep,1⟩
 | .TIMESTAMP=>some ⟨0,gasQuickStep,1⟩
 | .NUMBER=>some ⟨0,gasQuickStep,1⟩
 | .CALLDATASIZE=>some ⟨0,gasQuickStep,1⟩
 | .DIFFICULTY=>some ⟨0,gasQuickStep,1⟩
 | .GASLIMIT=>some ⟨0,gasQuickStep,1⟩
 | .POP=>some ⟨1,gasQuickStep,0⟩
 | .PC=>some ⟨0,gasQuickStep,1⟩
 | .MSIZE=>some ⟨0,gasQuickStep,1⟩
 | .GAS=>some ⟨0,gasQuickStep,1⟩
 | .BLOCKHASH=>some ⟨1,gasExtStep,1⟩
 | .BALANCE=>some ⟨1,gasExtStep,1⟩
 | .EXTCODESIZE=>some ⟨1,gasExtStep,1⟩
 | .EXTCODECOPY=>some ⟨4,gasExtStep,0⟩
 | .SLOAD=>some ⟨1,Params.sloadGas,1⟩
 | .SSTORE=>some ⟨2,0,0⟩
 | .SHA3=>some ⟨2,Params.sha3Gas,1⟩
 | .CREATE=>some ⟨3,Params.createGas,1⟩
 | .CALL=>some ⟨7,Params.callGas,1⟩
 | .CALLCODE=>some ⟨7,Params.callGas,1⟩
 | .JUMPDEST=>some ⟨0,Params.jumpdestGas,0⟩
 | .SUICIDE=>some ⟨1,0,0⟩
 | .RETURN=>some ⟨2,0,0⟩
 | .PUSH n=>if n=0 then some ⟨0,gasFastestStep,1⟩ else none
 | .DUP n=>if n=0 then some ⟨0,0,1⟩ else none
 | .STOP=>none
 | .SWAP _=>none
 | .LOG _=>none
 | .invalid _=>none

/-- PUSH and DUP are looked up under their first member. -/
def baseOp:OpCode→OpCode
 | .PUSH _=>.PUSH 0
 | .DUP _=>.DUP 0
 | op=>op

/-- The code byte at a position; beyond the code it is zero, which is STOP. -/
def getOp (code:Bytes) (n:ℕ):OpCode:=
 if h:n<code.length then OpCode.ofByte code[n] else OpCode.ofByte 0

@[simp] lemma ofByte_zero:OpCode.ofByte 0=.STOP:=rfl

lemma getOp_of_length_le(h:code.length≤n):getOp code n=.STOP:=by
 rw[getOp,dif_neg (by omega)]
 rfl

end GoCoupe.EvmOpCodes
