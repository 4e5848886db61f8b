import GoCoupe.EvmByteCodeLoop

/-!
# Compiled programs

The compiler turns code into a list of instructions, and an optimiser fuses runs of pushes and
static jumps into segments. The program counter of `runProgram` is an index into the list.
-/

namespace GoCoupe.EvmCompiledPrograms

open InteractionPrograms InteractionLoops EvmMachine EvmOpCodes EvmInstructions EvmGas
open EvmByteCodeLoop BigIntegerWords

structure Instruction where
 op:OpCode
 pc:ℕ
 fn:Option (Environment → Contract→InstrFn)
 data:Option ℤ
 gas:Option ℤ
 spop:ℕ
 spush:ℕ
 returns:Bool

inductive ProgramInstruction where
 | instr (i:Instruction)
 | jumpSeg (pos:ℕ) (err:Option VmError) (gas:ℤ)
 | pushSeg (data:List ℤ) (gas:ℤ)

/-- A program while it is compiled; the map from code positions to indices is kept as a
list of its entries. -/
structure Compiled where
 instructions:List Instruction
 mapping:List (ℕ × ℕ)
 destinations:List ℕ

/-- A missing key of the map reads as zero. -/
def lookup (mapping:List (ℕ × ℕ)) (pc:ℕ):ℕ:=(mapping.lookup pc).getD 0

/-- The instruction that `addInstr` appends; what `_baseCheck` does not list is zero. -/
def newInstr (op:OpCode) (pc:ℕ) (fn:Option (Environment → Contract→InstrFn))
 (data:Option ℤ):Instruction where
 op:=op
 pc:=pc
 fn:=fn
 data:=data
 gas:=(baseCheckTable (baseOp op)).map Req.gas
 spop:=((baseCheckTable (baseOp op)).map Req.stackPop).getD 0
 spush:=((baseCheckTable (baseOp op)).map Req.stackPush).getD 0
 returns:=op=.RETURN ∨ op=.SUICIDE ∨ op=.STOP

def addInstr (p:Compiled) (op:OpCode) (pc:ℕ)
 (fn:Option (Environment → Contract→InstrFn)) (data:Option ℤ):Compiled:=
 {p with
  instructions:=p.instructions++[newInstr op pc fn data]
  mapping:=(pc,p.instructions.length)::p.mapping}

/-- The switch of `CompileProgram`: the function and the data of an instruction. -/
def compileOp (code:Bytes) (pc:ℕ):OpCode→Option (Environment → Contract→InstrFn) × Option ℤ
 | .ADD=>(some fun _ _=>plain opAdd,none)
 | .SUB=>(some fun _ _=>plain opSub,none)
 | .MUL=>(some fun _ _=>plain opMul,none)
 | .DIV=>(some fun _ _=>plain opDiv,none)
 | .SDIV=>(some fun _ _=>plain opSdiv,none)
 | .MOD=>(some fun _ _=>plain opMod,none)
 | .SMOD=>(some fun _ _=>plain opSmod,none)
 | .EXP=>(some fun _ _=>plain opExp,none)
 | .SIGNEXTEND=>(some fun _ _=>plain opSignExtend,none)
 | .NOT=>(some fun _ _=>plain opNot,none)
 | .LT=>(some fun _ _=>plain opLt,none)
 | .GT=>(some fun _ _=>plain opGt,none)
 | .SLT=>(some fun _ _=>plain opSlt,none)
 | .SGT=>(some fun _ _=>plain opSgt,none)
 | .EQ=>(some fun _ _=>plain opEq,none)
 | .ISZERO=>(some fun _ _=>plain opIszero,none)
 | .AND=>(some fun _ _=>plain opAnd,none)
 | .OR=>(some fun _ _=>plain opOr,none)
 | .XOR=>(some fun _ _=>plain opXor,none)
 | .BYTE=>(some fun _ _=>plain opByte,none)
 | .ADDMOD=>(some fun _ _=>plain opAddmod,none)
 | .MULMOD=>(some fun _ _=>plain opMulmod,none)
 | .SHA3=>(some fun env _=>plain (opSha3 env),none)
 | .ADDRESS=>(some fun _ c=>plain (opAddress c),none)
 | .BALANCE=>(some fun _ _=>plain opBalance,none)
 | .ORIGIN=>(some fun env _=>plain (opOrigin env),none)
 | .CALLER=>(some fun _ c=>plain (opCaller c),none)
 | .CALLVALUE=>(some fun _ c=>plain (opCallValue c),none)
 | .CALLDATALOAD=>(some fun _ c=>plain (opCalldataLoad c),none)
 | .CALLDATASIZE=>(some fun _ c=>plain (opCalldataSize c),none)
 | .CALLDATACOPY=>(some fun _ c=>plain (opCalldataCopy c),none)
 | .CODESIZE=>(some fun _ c=>plain (opCodeSize c),none)
 | .EXTCODESIZE=>(some fun _ _=>plain opExtCodeSize,none)
 | .CODECOPY=>(some fun _ c=>plain (opCodeCopy c),none)
 | .EXTCODECOPY=>(some fun _ _=>plain opExtCodeCopy,none)
 | .GASPRICE=>(some fun _ c=>plain (opGasprice c),none)
 | .BLOCKHASH=>(some fun env _=>plain (opBlockhash env),none)
 | .COINBASE=>(some fun env _=>plain (opCoinbase env),none)
 | .TIMESTAMP=>(some fun env _=>plain (opTimestamp env),none)
 | .NUMBER=>(some fun env _=>plain (opNumber env),none)
 | .DIFFICULTY=>(some fun env _=>plain (opDifficulty env),none)
 | .GASLIMIT=>(some fun env _=>plain (opGasLimit env),none)
 | .PUSH n=>(some fun _ _=>opPush,some (bytesToBig (getData code (pc+1) (n+1:ℕ))))
 | .POP=>(some fun _ _=>plain opPop,none)
 | .DUP n=>(some fun _ _=>opDup,some (n+1:ℕ))
 | .SWAP n=>(some fun _ _=>opSwap,some (n+2:ℕ))
 | .LOG n=>(some opLog,some (n:ℕ))
 | .MLOAD=>(some fun _ _=>plain opMload,none)
 | .MSTORE=>(some fun _ _=>plain opMstore,none)
 | .MSTORE8=>(some fun _ _=>plain opMstore8,none)
 | .SLOAD=>(some fun _ c=>plain (opSload c),none)
 | .SSTORE=>(some fun _ c=>plain (opSstore c),none)
 | .JUMP=>(some fun _ _=>opJump,none)
 | .JUMPI=>(some fun _ _=>opJumpi,none)
 | .JUMPDEST=>(some fun _ _=>plain opJumpdest,none)
 | .PC=>(some fun _ _=>opPc,some pc)
 | .MSIZE=>(some fun _ _=>plain opMsize,none)
 | .GAS=>(some fun _ _=>plain opGas,none)
 | .CREATE=>(some fun _ c=>plain (opCreate c),none)
 | .CALL=>(some fun _ c=>plain (opCall c),none)
 | .CALLCODE=>(some fun _ c=>plain (opCallCode c),none)
 | .RETURN=>(some fun _ _=>opReturn,none)
 | .SUICIDE=>(some fun _ c=>plain (opSuicide c),none)
 | .STOP=>(some fun _ _=>opStop,none)
 | .invalid _=>(none,none)

/-- The loop of `CompileProgram` over the code, before optimisation. -/
def compileFrom (code:Bytes):ℕ→ℕ → Compiled → Compiled
 | 0,_,p=>p
 | fuel+1,pc,p=>
  if pc<code.length then
   let op:=getOp code pc
   let (fn,data):=compileOp code pc op
   let p:=addInstr p op pc fn data
   let p:=if op=.JUMPDEST then {p with destinations:=pc::p.destinations} else p
   compileFrom code fuel (pc+op.dataSize+1) p
  else p

def compile (code:Bytes):Compiled:=compileFrom code code.length 0 ⟨[],[],[]⟩

def validDest (destinations:List ℕ) (dest:ℤ):Bool:=
 if dest>2^64-1 then false else uint64 dest∈destinations

/-- `jump` of the compiled loop: the index of the destination. -/
def jumpIndex (p:Compiled) (code:Bytes) (dest:ℤ):Except VmError ℕ:=
 if !validDest p.destinations dest then
  .error (.invalidJump (getOp code (uint64 dest)) dest)
 else .ok (lookup p.mapping (uint64 dest))

/-- The pushes of a load have data and a price. -/
def makePushSeg (instrs:List Instruction):ProgramInstruction:=
 .pushSeg (instrs.map fun i=>i.data.getD 0) (instrs.map fun i=>i.gas.getD 0).sum

def makeStaticJumpSeg (p:Compiled) (code:Bytes) (dest:ℤ):ProgramInstruction:=
 let gas:=((baseCheckTable (.PUSH 0)).map Req.gas).getD 0 + ((baseCheckTable .JUMP).map Req.gas).getD 0
 match jumpIndex p code dest with
 | .ok pos=>.jumpSeg pos none gas
 | .error e=>.jumpSeg 0 (some e) gas

/-- The loop of `optimiseProgram` at index `i`: the instructions not yet visited, the load of
pushes collected, and the program as rewritten so far. -/
def optimiseFrom (p:Compiled) (code:Bytes):List Instruction→ℕ→List Instruction →
 List ProgramInstruction→List ProgramInstruction
 | [],_,_,out=>out
 | instr::rest,i,load,out=>
  if instr.op.isPush then optimiseFrom p code rest (i+1) (load++[instr]) out
  else if instr.op.isStaticJump then
   match load.getLast? with
   | none=>optimiseFrom p code rest (i+1) load out
   | some last=>
    let out:=if load.length>2 then
     out.set (i-load.dropLast.length-1) (makePushSeg load.dropLast)
     else out
    let out:=out.set (i-1) (makeStaticJumpSeg p code (last.data.getD 0))
    optimiseFrom p code rest (i+1) [] out
  else
   let out:=if load.length>1 then out.set (i-load.length) (makePushSeg load) else out
   optimiseFrom p code rest (i+1) [] out

def optimiseProgram (p:Compiled) (code:Bytes):List ProgramInstruction:=
 optimiseFrom p code p.instructions 0 [] (p.instructions.map .instr)

/-- `jitBaseCheck`: the base price comes with the instruction. -/
def jitBaseCheck (instr:Instruction):Vm ℤ:=do
 checkStack instr.spop instr.spush
 return instr.gas.getD 0

def jitCalculateGasAndSize (c:Contract) (instr:Instruction):Vm (ℤ × ℤ):=do
 let base ← jitBaseCheck instr
 gasAndSize c instr.op base

/-- `jump` of the compiled loop while the program runs. -/
def jitJump (p:Compiled) (c:Contract) (dest:ℤ):Vm ℕ:=
 match jumpIndex p c.code dest with
 | .ok pos=>return pos
 | .error e=>Vm.throw e

/-- An instruction after it has been paid for: the next index and the bytes to return. -/
def execInstr (env:Environment) (c:Contract) (p:Compiled) (instr:Instruction) (pc:ℕ):
 Vm (ℕ × Bytes):=do
 match instr.op with
 | .JUMP=>return (← jitJump p c (← pop),[])
 | .JUMPI=>
  let pos ← pop
  let cond ← pop
  if cond≥1 then return (← jitJump p c pos,[]) else return (pc+1,[])
 | .RETURN=>
  let offset ← pop
  let size ← pop
  return (pc,←memoryGetPtr (int64 offset) (int64 size))
 | _=>
  match instr.fn with
  | none=>Vm.throw (.invalidOpcode0x instr.op)
  | some fn=>return ((← fn env c instr.data pc)+1,[])

def pushAll:List ℤ→Vm Unit
 | []=>pure ()
 | d::ds=>do
  push d
  pushAll ds

/-- The method `do` of the three kinds of program instruction. -/
def doInstr (env:Environment) (c:Contract) (p:Compiled) (pc:ℕ):ProgramInstruction→Vm (ℕ × Bytes)
 | .instr i=>do
  prepare (jitCalculateGasAndSize c i)
  execInstr env c p i pc
 | .jumpSeg pos err gas=>do
  if !(← useGas gas) then Vm.throw .outOfGas
  match err with
  | some e=>Vm.throw e
  | none=>return (pos,[])
 | .pushSeg data gas=>do
  if !(← useGas gas) then Vm.throw .outOfGas
  pushAll data
  return (pc+data.length,[])

def halts:ProgramInstruction→Bool
 | .instr i=>i.returns
 | .jumpSeg _ _ _=>false
 | .pushSeg _ _=>false

/-- One turn of the loop of `runProgram`; running off the end returns nothing. -/
def jitStep (env:Environment) (c:Contract) (pc:ℕ):Vm (ℕ ⊕ Bytes):=let p:=compile c.code
 match (optimiseProgram p c.code)[pc]? with
 | none=>return .inr []
 | some instr=>do
  let (pc,ret) ← doInstr env c p pc instr
  if halts instr then return .inr ret else return .inl pc

end GoCoupe.EvmCompiledPrograms
