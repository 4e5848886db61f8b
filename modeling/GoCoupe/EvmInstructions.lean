import GoCoupe.EvmMachine

/-!
# The instructions

The functions `op…` of the virtual machine. Those that replace the topmost items by a value
computed from them are instances of `unary`, `binary` and `ternary`.
-/

namespace GoCoupe.EvmInstructions

open EvmMachine EvmOpCodes BigIntegerWords

def unary (g:ℤ→ℤ):Vm Unit:=do
 let x ← pop
 push (g x)

def binary (g:ℤ→ℤ→ℤ):Vm Unit:=do
 let x ← pop
 let y ← pop
 push (g x y)

def ternary (g:ℤ→ℤ→ℤ→ℤ):Vm Unit:=do
 let x ← pop
 let y ← pop
 let z ← pop
 push (g x y z)

def flag (b:Bool):ℤ:=if b then 1 else 0

def opAdd:Vm Unit:=binary fun x y=>u256 (x+y)

def opSub:Vm Unit:=binary fun x y=>u256 (x-y)

def opMul:Vm Unit:=binary fun x y=>u256 (x*y)

def opDiv:Vm Unit:=binary fun x y=>if y≠0 then u256 (x/y) else 0

def opSdiv:Vm Unit:=binary fun x y=>
 let x:=s256 x
 let y:=s256 y
 if y=0 then 0
 else
  let n:ℤ:=if x*y<0 then -1 else 1
  u256 (|x| / |y| * n)

def opMod:Vm Unit:=binary fun x y=>if y=0 then 0 else u256 (x%y)

def opSmod:Vm Unit:=binary fun x y=>
 let x:=s256 x
 let y:=s256 y
 if y=0 then 0
 else
  let n:ℤ:=if x<0 then -1 else 1
  u256 (|x| % |y| * n)

def opExp:Vm Unit:=binary fun x y=>u256 (x^y.toNat%2^256)

/-- An operand of 31 or more leaves the number below it as it is. -/
def opSignExtend:Vm Unit:=do
 let back ← pop
 if back<31 then
  let bit:=uint64 back*8+7
  let num ← pop
  let mask:ℤ:=2^bit-1
  push (u256 (if bitTest num bit then Int.lor num (Int.lnot mask) else Int.land num mask))

def opNot:Vm Unit:=unary fun x=>u256 (Int.lnot x)

def opLt:Vm Unit:=binary fun x y=>flag (x<y)

def opGt:Vm Unit:=binary fun x y=>flag (x>y)

def opSlt:Vm Unit:=binary fun x y=>flag (s256 x < s256 (s256 y))

def opSgt:Vm Unit:=binary fun x y=>flag (s256 x>s256 y)

def opEq:Vm Unit:=binary fun x y=>flag (x=y)

def opIszero:Vm Unit:=unary fun x=>flag (¬x>0)

def opAnd:Vm Unit:=binary fun x y=>Int.land x y

def opOr:Vm Unit:=binary fun x y=>Int.lor x y

def opXor:Vm Unit:=binary fun x y=>Int.xor x y

def opByte:Vm Unit:=do
 let th ← pop
 let val ← pop
 if th<32 then
  let padded:=leftPadBytes (bytes val) 32
  let byte ← Vm.ofOption (if int64 th<0 then none else padded[(int64 th).toNat]?)
  push byte.toNat
 else push 0

def opAddmod:Vm Unit:=ternary fun x y z=>if z>0 then u256 ((x+y)%z) else 0

def opMulmod:Vm Unit:=ternary fun x y z=>if z>0 then u256 (x*y%z) else 0

def opSha3 (env:Environment):Vm Unit:=do
 let offset ← pop
 let size ← pop
 let data ← memoryGet (int64 offset) (int64 size)
 push (hashToBig (env.crypto.sha3 data))

def opAddress (c:Contract):Vm Unit:=push (addressToBig c.self)

def opBalance:Vm Unit:=do
 let addr:=bigToAddress (← pop)
 let balance ← Vm.ask (.getBalance addr)
 push balance

def opOrigin (env:Environment):Vm Unit:=push (addressToBig env.origin)

def opCaller (c:Contract):Vm Unit:=push (addressToBig c.caller)

def opCallValue (c:Contract):Vm Unit:=push c.value

def opCalldataLoad (c:Contract):Vm Unit:=unary fun x=>bytesToBig (getData c.input x 32)

def opCalldataSize (c:Contract):Vm Unit:=push c.input.length

/-- What the three copying instructions do with the slice they copy from. -/
def copyData (data:Bytes) (mOff cOff l:ℤ):Vm Unit:=
 memorySet (uint64 mOff) (uint64 l) (getData data cOff l)

def opCalldataCopy (c:Contract):Vm Unit:=do
 let mOff ← pop
 let cOff ← pop
 let l ← pop
 copyData c.input mOff cOff l

def opExtCodeSize:Vm Unit:=do
 let addr:=bigToAddress (← pop)
 let code ← Vm.ask (.getCode addr)
 push (code:Bytes).length

def opCodeSize (c:Contract):Vm Unit:=push c.code.length

def opCodeCopy (c:Contract):Vm Unit:=do
 let mOff ← pop
 let cOff ← pop
 let l ← pop
 copyData c.code mOff cOff l

def opExtCodeCopy:Vm Unit:=do
 let addr:=bigToAddress (← pop)
 let mOff ← pop
 let cOff ← pop
 let l ← pop
 let code ← Vm.ask (.getCode addr)
 copyData code mOff cOff l

def opGasprice (c:Contract):Vm Unit:=push c.price

def opBlockhash (env:Environment):Vm Unit:=unary fun num=>
 if num>env.blockNumber-257 ∧ num<env.blockNumber then hashToBig (env.getHash (uint64 num))
 else 0

def opCoinbase (env:Environment):Vm Unit:=push (addressToBig env.coinbase)

def opTimestamp (env:Environment):Vm Unit:=push (u256 env.time)

def opNumber (env:Environment):Vm Unit:=push (u256 env.blockNumber)

def opDifficulty (env:Environment):Vm Unit:=push (u256 env.difficulty)

def opGasLimit (env:Environment):Vm Unit:=push (u256 env.gasLimit)

def opPop:Vm Unit:=do
 let _ ← pop

def opMload:Vm Unit:=do
 let offset ← pop
 let data ← memoryGet (int64 offset) 32
 push (bytesToBig data)

def opMstore:Vm Unit:=do
 let mStart ← pop
 let val ← pop
 memorySet (uint64 mStart) 32 (bigToBytes val 256)

def opMstore8:Vm Unit:=do
 let off ← pop
 let val ← pop
 memorySetByte (int64 off) (UInt8.ofNat (int64 val%256).toNat)

def opSload (c:Contract):Vm Unit:=do
 let loc:=bigToHash (← pop)
 let val ← Vm.ask (.getState c.self loc)
 push (hashToBig val)

def opSstore (c:Contract):Vm Unit:=do
 let loc:=bigToHash (← pop)
 let val ← pop
 let _ ← Vm.ask (.setState c.self loc (bigToHash val))

def opJumpdest:Vm Unit:=pure ()

def opMsize:Vm Unit:=do
 let f ← Vm.get
 push f.mem.length

def opGas:Vm Unit:=do
 let f ← Vm.get
 push f.gas

def popTopics:ℕ→Vm (List Hash)
 | 0=>pure []
 | n+1=>do
  let topic:=bigToHash (← pop)
  return topic::(← popTopics n)

/-- A log with `n` topics, which `opLog` takes from its data and `makeLog` as an argument. -/
def logTopics (env:Environment) (c:Contract) (n:ℕ):Vm Unit:=do
 let mStart ← pop
 let mSize ← pop
 let topics ← popTopics n
 let d ← memoryGet (int64 mStart) (int64 mSize)
 let _ ← Vm.ask (.addLog ⟨c.self,topics,d,uint64 env.blockNumber⟩)

/-- The gas the contract has left all goes to the new one, which hands the rest back. -/
def opCreate (c:Contract):Vm Unit:=do
 let value ← pop
 let offset ← pop
 let size ← pop
 let input ← memoryGet (int64 offset) (int64 size)
 let gas:=(← Vm.get).gas
 let _ ← useGas gas
 let r:CallResult ← Vm.ask (.create c.self input gas c.price value)
 returnGas r.gas
 if r.failed then push 0
 else
  let dataGas:ℤ:=r.ret.length*Params.createDataGas
  if ← useGas dataGas then
   let _ ← Vm.ask (.setCode r.address r.ret)
  push (addressToBig r.address)

/-- The common body of `opCall` and `opCallCode`, which differ in the method they call. -/
def callWith (kind:CallKind) (c:Contract):Vm Unit:=do
 let gas ← pop
 let addr ← pop
 let value:=u256 (← pop)
 let inOffset ← pop
 let inSize ← pop
 let retOffset ← pop
 let retSize ← pop
 let address:=bigToAddress addr
 let args ← memoryGet (int64 inOffset) (int64 inSize)
 let gas:=if 0<(bytes value).length then gas+Params.callStipend else gas
 let r:CallResult ← Vm.ask (.call kind c.self address args gas c.price value)
 returnGas r.gas
 if r.failed then push 0
 else
  push 1
  memorySet (uint64 retOffset) (uint64 retSize) r.ret

def opCall (c:Contract):Vm Unit:=callWith .call c

def opCallCode (c:Contract):Vm Unit:=callWith .callCode c

def opSuicide (c:Contract):Vm Unit:=do
 let balance ← Vm.ask (.getBalance c.self)
 let addr:=bigToAddress (← pop)
 let _ ← Vm.ask (.addBalance addr balance)
 let _ ← Vm.ask (.delete c.self)

/-- An instruction function gets the data of its instruction and the program counter, and
may move the latter. -/
def InstrFn:Type:=Option ℤ→ℕ→Vm ℕ

/-- An instruction that neither reads its data nor moves the program counter. -/
def plain (m:Vm Unit):InstrFn:=fun _ pc=>do
 m
 return pc

/-- The data of an instruction; dereferencing a nil pointer panics. -/
def deref (data:Option ℤ):Vm ℤ:=Vm.ofOption data

def opPush:InstrFn:=fun data pc=>do
 push (← deref data)
 return pc

def opPc:InstrFn:=fun data pc=>do
 push (← deref data)
 return pc

def opDup:InstrFn:=fun data pc=>do
 dup (int64 (← deref data)).toNat
 return pc

def opSwap:InstrFn:=fun data pc=>do
 swap (int64 (← deref data)).toNat
 return pc

def opLog (env:Environment) (c:Contract):InstrFn:=fun data pc=>do
 logTopics env c (int64 (← deref data)).toNat
 return pc

def makeLog (env:Environment) (c:Contract) (size:ℕ):InstrFn:=plain (logTopics env c size)

def makePush (c:Contract) (size:ℕ):InstrFn:=fun _ pc=>do
 push (bytesToBig (getData c.code (pc+1) size))
 return pc+size

def makeDup (size:ℕ):InstrFn:=plain (dup size)

def makeSwap (size:ℕ):InstrFn:=plain (swap (size+1))

/-- A body that is empty, because the loops do the work of the instruction. -/
def nothing:InstrFn:=plain (pure ())

def opJump:InstrFn:=nothing

def opJumpi:InstrFn:=nothing

def opReturn:InstrFn:=nothing

def opStop:InstrFn:=nothing

end GoCoupe.EvmInstructions
