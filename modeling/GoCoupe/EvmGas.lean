import GoCoupe.EvmMachine

/-!
# What an instruction costs

`calculateGasAndSize` and the copy of it that the compiled loop has, which takes the base price
from the instruction, are written over the switch they share.
-/

namespace GoCoupe.EvmGas

open EvmMachine EvmOpCodes BigIntegerWords

def toWordSize (size:ℤ):ℤ:=(size+31)/32

def calcMemSize (off l:ℤ):ℤ:=if l=0 then 0 else off+l

def memoryFee (words:ℤ):ℤ:=words*Params.memoryGas+words^2/Params.quadCoeffDiv

/-- `quadMemGas`: the new memory size in whole words, and the gas with the fee for growing
the memory to it. -/
def quadMemGas (memLen:ℕ) (newMemSize gas:ℤ):ℤ × ℤ:=
 if newMemSize>0 then
  let newMemSizeWords:=toWordSize newMemSize
  let newMemSize:=newMemSizeWords*32
  if newMemSize>memLen then
   (newMemSize,gas+(memoryFee newMemSizeWords-memoryFee (toWordSize memLen)))
  else (newMemSize,gas)
 else (newMemSize,gas)

def checkStack (stackPop stackPush:ℕ):Vm Unit:=do
 require stackPop
 let f ← Vm.get
 if stackPush>0 ∧ f.stack.length-stackPop+stackPush>Params.stackLimit then
  Vm.throw (.stackLimit f.stack.length)

/-- The base price; an opcode that the table does not list has none and is not checked. -/
def baseCheck (op:OpCode):Vm ℤ:=
 match baseCheckTable (baseOp op) with
 | some r=>do
  checkStack r.stackPop r.stackPush
  return r.gas
 | none=>return 0

def wordsGas (size wordGas:ℤ):ℤ:=toWordSize size*wordGas

/-- Only CALL pays for an account that does not exist. -/
def newAccountGas (op:OpCode) (gas:ℤ):Vm ℤ:=
 if op=.CALL then do
  let addr ← back 2
  let known:Bool ← Vm.ask (.exist (bigToAddress addr))
  return if !known then gas+Params.callNewAccountGas else gas
 else return gas

def callGasAndSize (op:OpCode) (gas:ℤ):Vm (ℤ × ℤ):=do
 let callGas ← back 1
 let gas ← newAccountGas op (gas+callGas)
 let value ← back 3
 let gas:=if 0<(bytes value).length then gas+Params.callValueTransferGas else gas
 let x:=calcMemSize (← back 6) (← back 7)
 let y:=calcMemSize (← back 4) (← back 5)
 return (max x y,gas)

/-- The switch over the opcode: memory size and gas on top of the base price. -/
def opGasAndSize (c:Contract) (op:OpCode) (gas:ℤ):Vm (ℤ × ℤ):=
 match op with
 | .SWAP n=>do
  require (n+2)
  return (0,gasFastestStep)
 | .DUP n=>do
  require (n+1)
  return (0,gasFastestStep)
 | .LOG n=>do
  require (n+2)
  let mSize ← back 2
  let mStart ← back 1
  return (calcMemSize mStart mSize,gas+Params.logGas+n*Params.logTopicGas+mSize*Params.logDataGas)
 | .EXP=>do
  let exponent ← back 2
  return (0,gas+(bytes exponent).length*Params.expByteGas)
 | .SSTORE=>do
  require 2
  let y ← back 2
  let x ← back 1
  let val:Hash ← Vm.ask (.getState c.self (bigToHash x))
  if val=0 ∧ bigToHash y≠0 then
   return (0,Params.sstoreSetGas)
  else if val≠0 ∧ bigToHash y=0 then
   let _ ← Vm.ask (.addRefund Params.sstoreRefundGas)
   return (0,Params.sstoreClearGas)
  else
   return (0,Params.sstoreClearGas)
 | .SUICIDE=>do
  let deleted:Bool ← Vm.ask (.isDeleted c.self)
  if !deleted then
   let _ ← Vm.ask (.addRefund Params.suicideRefundGas)
  return (0,gas)
 | .MLOAD=>do
  return (calcMemSize (← peek) 32,gas)
 | .MSTORE8=>do
  return (calcMemSize (← peek) 1,gas)
 | .MSTORE=>do
  return (calcMemSize (← peek) 32,gas)
 | .RETURN=>do
  return (calcMemSize (← peek) (← back 2),gas)
 | .SHA3=>do
  let size ← back 2
  return (calcMemSize (← peek) size,gas+wordsGas size Params.sha3WordGas)
 | .CALLDATACOPY=>do
  let size ← back 3
  return (calcMemSize (← peek) size,gas+wordsGas size Params.copyGas)
 | .CODECOPY=>do
  let size ← back 3
  return (calcMemSize (← peek) size,gas+wordsGas size Params.copyGas)
 | .EXTCODECOPY=>do
  let size ← back 4
  return (calcMemSize (← back 2) size,gas+wordsGas size Params.copyGas)
 | .CREATE=>do
  return (calcMemSize (← back 2) (← back 3),gas)
 | .CALL=>callGasAndSize .CALL gas
 | .CALLCODE=>callGasAndSize .CALLCODE gas
 | _=>return (0,gas)

/-- The rest of the calculation once the base price is known. -/
def gasAndSize (c:Contract) (op:OpCode) (base:ℤ):Vm (ℤ × ℤ):=do
 let (newMemSize,gas) ← opGasAndSize c op base
 let f ← Vm.get
 return quadMemGas f.mem.length newMemSize gas

def calculateGasAndSize (c:Contract) (op:OpCode):Vm (ℤ × ℤ):=do
 let base ← baseCheck op
 gasAndSize c op base

/-- What both loops do before an instruction: work out its price, use the gas and resize
the memory. -/
def prepare (gasAndSize:Vm (ℤ × ℤ)):Vm Unit:=do
 let (newMemSize,cost) ← gasAndSize
 if !(← useGas cost) then Vm.throw .outOfGas
 memoryResize (uint64 newMemSize)

end GoCoupe.EvmGas
