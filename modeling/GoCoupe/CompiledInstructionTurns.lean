import GoCoupe.CompiledCodeLayout

/-!
# Single instructions in both loops

A turn of the compiled loop that executes a single instruction is the turn of the byte-code
loop at its position. Only the wording of an undefined opcode differs.
-/

namespace GoCoupe.CompiledInstructionTurns

open EvmMachine EvmOpCodes EvmInstructions EvmGas EvmByteCodeLoop EvmCompiledPrograms
open CompiledCodeLayout BigIntegerWords

inductive Turn (code:Bytes) where
 | next
 | jump (dest:{x // x∈jumpdests code})
 | ret (b:Bytes)
 | undefined (op:OpCode)

variable {code:Bytes}

def byteTurn (pc:ℕ):Turn code→Vm (ℕ ⊕ Bytes)
 | .next=>return .inl (next code pc)
 | .jump dest=>return .inl dest
 | .ret b=>return .inr b
 | .undefined op=>Vm.throw (.invalidOpcode op)

def jitTurn (i:ℕ):Turn code→Vm (ℕ ⊕ Bytes)
 | .next=>return .inl (i+1)
 | .jump dest=>return .inl (lookup (compile code).mapping dest)
 | .ret b=>return .inr b
 | .undefined op=>Vm.throw (.invalidOpcode0x op)

lemma mem_of_hasDest(h:hasDest code dest=true):uint64 dest∈jumpdests code:=by
 unfold hasDest at h
 split at h<;>simp_all

/-- The jump that both loops make. -/
def jumpTurn (con:Contract) (dest:ℤ):Vm (Turn con.code):=
 if h:hasDest con.code dest then return .jump ⟨uint64 dest,mem_of_hasDest h⟩
 else Vm.throw (.invalidJump (getOp con.code (uint64 dest)) dest)

lemma jumpTurn_of_valid(h:hasDest con.code dest=true):
 jumpTurn con dest=pure (.jump ⟨uint64 dest,mem_of_hasDest h⟩):=dif_pos h

lemma jumpTurn_of_invalid(h:hasDest con.code dest=false):
 jumpTurn con dest=Vm.throw (.invalidJump (getOp con.code (uint64 dest)) dest):=
 dif_neg (by simp[h])

lemma validDest_compile(dest:ℤ):validDest (compile code).destinations dest=hasDest code dest:=by
 unfold validDest hasDest
 simp only[mem_destinations]

variable (con:Contract) (pc i:ℕ)

lemma jump_eq(dest:ℤ):(do return (.inl (← jump con dest):ℕ ⊕ Bytes)) =
 jumpTurn con dest>>=byteTurn pc:=by
 cases h:hasDest con.code dest with
 | false=>
  rw[jumpTurn_of_invalid h,jump,h]
  rfl
 | true=>
  rw[jumpTurn_of_valid h,jump,h]
  rfl

lemma jitJump_eq(dest:ℤ):(do return (← jitJump (compile con.code) con dest,([]:Bytes))) >>=
  (fun x=>pure (.inl x.1:ℕ ⊕ Bytes)) =
  jumpTurn con dest>>=jitTurn i:=by
 cases h:hasDest con.code dest with
 | false=>
  rw[jumpTurn_of_invalid h,jitJump,jumpIndex,validDest_compile,h]
  rfl
 | true=>
  rw[jumpTurn_of_valid h,jitJump,jumpIndex,validDest_compile,h]
  rfl

variable (env:Environment) (con:Contract) (pc i:ℕ)

abbrev compiled (code:Bytes) (pc:ℕ) (op:OpCode):Instruction:=
 newInstr op pc (compileOp code pc op).1 (compileOp code pc op).2

def finish (a:Instruction) (x:ℕ × Bytes):Vm (ℕ ⊕ Bytes):=
 if a.returns then return .inr x.2 else return .inl x.1

/-- Both loops execute the instruction by the same computation. -/
def Alike (op:OpCode):Prop:=
 ∃t:Vm (Turn con.code),execOp env con op pc=t>>=byteTurn pc ∧
  execInstr env con (compile con.code) (compiled con.code pc op) i >>=
   finish (compiled con.code pc op)=t>>=jitTurn i

variable {env con pc i}

/-- An instruction that both loops run by `body` and then go on after it. -/
lemma alike_of_body{op:OpCode}(hop:getOp con.code pc=op){body:Vm Unit}
 {fn₁ fn₂:InstrFn}{data₁ data₂:Option ℤ}
 (hbyte:execOp env con op pc=(do return .inl ((← fn₁ data₁ pc)+1)))
 (hfn1:fn₁ data₁ pc=(do body;return pc+op.dataSize))
 (hjit:execInstr env con (compile con.code) (compiled con.code pc op) i =
  (do return ((← fn₂ data₂ i)+1,[])))
 (hfn2:fn₂ data₂ i=(do body;return i))
 (hret:(compiled con.code pc op).returns=false):Alike env con pc i op:=by
 refine⟨body>>=fun _=>pure .next,?_,?_⟩
 ·rw[hbyte,hfn1,Vm.bind_assoc,Vm.bind_assoc]
  subst hop
  rfl
 rw[hjit,hfn2]
 simp only[Vm.bind_assoc,Vm.pure_bind,finish,hret]
 rfl

lemma int64_small{n:ℕ}(h:n<2^63):(int64 n).toNat=n:=by
 rw[int64_of_lt (Int.natCast_nonneg n) (by exact_mod_cast h),Int.toNat_natCast]

lemma opDup_some(d:ℤ):opDup (some d) i=(do dup (int64 d).toNat;return i):=rfl

lemma opSwap_some(d:ℤ):opSwap (some d) i=(do swap (int64 d).toNat;return i):=rfl

lemma opLog_some(d:ℤ):opLog env con (some d) i=(do logTopics env con (int64 d).toNat;return i):=rfl

lemma alike_jump:Alike env con pc i .JUMP:=by
 refine⟨pop>>=fun dest=>jumpTurn con dest,?_,?_⟩
 ·have hbyte:execOp env con .JUMP pc =
   pop>>=fun dest=>(do return (.inl (← jump con dest):ℕ ⊕ Bytes)):=rfl
  rw[hbyte,Vm.bind_assoc]
  exact congrArg _ (funext fun dest=>jump_eq con pc dest)
 have hjit:execInstr env con (compile con.code) (compiled con.code pc .JUMP) i =
  pop>>=fun dest=>(do return (← jitJump (compile con.code) con dest,([]:Bytes))):=rfl
 rw[hjit,Vm.bind_assoc,Vm.bind_assoc]
 exact congrArg _ (funext fun dest=>jitJump_eq con i dest)

lemma alike_jumpi(hop:getOp con.code pc=.JUMPI):Alike env con pc i .JUMPI:=by
 refine⟨do
  let pos ← pop
  let cond ← pop
  if cond≥1 then jumpTurn con pos else return .next,?_,?_⟩
 ·have hbyte:execOp env con .JUMPI pc=pop>>=fun pos=>pop>>=fun cond=>
   if cond≥1 then (do return (.inl (← jump con pos):ℕ ⊕ Bytes))
   else return .inl (pc+1):=rfl
  rw[hbyte]
  simp only[Vm.bind_assoc]
  refine congrArg _ (funext fun pos=>congrArg _ (funext fun cond=>?_))
  split
  ·exact jump_eq con pc pos
  rw[Vm.pure_bind,byteTurn,next,hop]
  rfl
 have hjit:execInstr env con (compile con.code) (compiled con.code pc .JUMPI) i =
  pop>>=fun pos=>pop>>=fun cond=>
   if cond≥1 then (do return (← jitJump (compile con.code) con pos,([]:Bytes)))
   else return (i+1,[]):=rfl
 rw[hjit]
 simp only[Vm.bind_assoc]
 refine congrArg _ (funext fun pos=>congrArg _ (funext fun cond=>?_))
 split
 ·exact jitJump_eq con i pos
 rfl

lemma alike_return:Alike env con pc i .RETURN:=by
 refine⟨do
  let offset ← pop
  let size ← pop
  return .ret (← memoryGetPtr (int64 offset) (int64 size)),?_,?_⟩
 ·simp only[Vm.bind_assoc]
  rfl
 have hjit:execInstr env con (compile con.code) (compiled con.code pc .RETURN) i =
  pop>>=fun offset=>pop>>=fun size=>
   memoryGetPtr (int64 offset) (int64 size)>>=fun b=>pure (i,b):=rfl
 rw[hjit]
 simp only[Vm.bind_assoc]
 rfl

lemma alike_suicide:Alike env con pc i .SUICIDE:=by
 refine⟨do opSuicide con;return .ret [],?_,?_⟩
 ·simp only[Vm.bind_assoc]
  rfl
 have hjit:execInstr env con (compile con.code) (compiled con.code pc .SUICIDE) i =
  (opSuicide con>>=fun _=>pure i)>>=fun x=>pure (x+1,[]):=rfl
 rw[hjit]
 simp only[Vm.bind_assoc]
 rfl

/-- Both loops execute every instruction by the same computation. -/
lemma alike(env:Environment)(i:ℕ){op:OpCode}(hop:getOp con.code pc=op):Alike env con pc i op:=by
 cases op with
 | STOP=>exact⟨pure (.ret []),rfl,rfl⟩
 | JUMP=>exact alike_jump
 | JUMPI=>exact alike_jumpi hop
 | RETURN=>exact alike_return
 | SUICIDE=>exact alike_suicide
 | invalid b=>exact⟨pure (.undefined (.invalid b)),rfl,rfl⟩
 | PC | PUSH=>exact alike_of_body hop rfl rfl rfl rfl rfl
 | DUP n=>
  have hfn:opDup (some (n+1:ℕ)) i=(do dup (n+1);return i):=by
   rw[opDup_some,int64_small (by omega)]
  exact alike_of_body hop rfl rfl rfl hfn rfl
 | SWAP n=>
  have hfn:opSwap (some (n+2:ℕ)) i=(do swap (n+2);return i):=by
   rw[opSwap_some,int64_small (by omega)]
  exact alike_of_body hop rfl rfl rfl hfn rfl
 | LOG n=>
  have hfn:opLog env con (some (n:ℕ)) i=(do logTopics env con n;return i):=by
   rw[opLog_some,int64_small (by omega)]
  exact alike_of_body hop rfl rfl rfl hfn rfl
 | _=>exact alike_of_body hop rfl rfl rfl rfl rfl

variable {con:Contract} {pc i:ℕ}

lemma checkStack_zero:checkStack 0 0=pure ():=by
 funext ⟨s,m,g⟩
 rw[checkStack,Vm.bind_apply,require_of_le _ _ _ (Nat.zero_le _)]
 rfl

/-- The compiled loop asks the same price. -/
lemma jitCalculateGasAndSize_newInstr(op:OpCode)
 (fn:Option (Environment → Contract→InstrFn))(data:Option ℤ):
 jitCalculateGasAndSize con (newInstr op pc fn data)=calculateGasAndSize con op:=by
 have hbase:jitBaseCheck (newInstr op pc fn data)=baseCheck op:=by
  unfold jitBaseCheck baseCheck newInstr
  cases baseCheckTable (baseOp op) with
  | none=>exact congrArg (· >>= fun _=>pure 0) checkStack_zero
  | some r=>rfl
 rw[jitCalculateGasAndSize,calculateGasAndSize,hbase]
 rfl

/-- A turn of the compiled loop at an instruction that the optimiser has left alone. -/
lemma jitStep_instr(env:Environment)
 (hinstr:(optimiseProgram (compile con.code) con.code)[i]?=some (.instr (instrAt con.code pc))):
 jitStep env con i=prepare (calculateGasAndSize con (getOp con.code pc))>>=fun _=>
  execInstr env con (compile con.code) (instrAt con.code pc) i >>=
   finish (instrAt con.code pc):=by
 have hstep:jitStep env con i=(prepare (jitCalculateGasAndSize con (instrAt con.code pc)) >>=
  fun _=>execInstr env con (compile con.code) (instrAt con.code pc) i) >>=
   finish (instrAt con.code pc):=by
  rw[jitStep,hinstr]
  rfl
 have hprice:jitCalculateGasAndSize con (instrAt con.code pc) =
  calculateGasAndSize con (getOp con.code pc):=jitCalculateGasAndSize_newInstr _ _ _
 rw[hstep,hprice,Vm.bind_assoc]

/-- There both loops make the same turn. -/
lemma exists_turn(env:Environment)
 (hinstr:(optimiseProgram (compile con.code) con.code)[i]?=some (.instr (instrAt con.code pc))):
 ∃t:Vm (Turn con.code),byteStep env con pc = t>>=byteTurn pc∧jitStep env con i = t>>=jitTurn i:=by
 obtain⟨t,hbyte,hjit⟩:=alike env i (rfl:getOp con.code pc=getOp con.code pc)
 refine⟨prepare (calculateGasAndSize con (getOp con.code pc))>>=fun _=>t,?_,?_⟩
 ·rw[byteStep,hbyte,Vm.bind_assoc]
 rw[jitStep_instr env hinstr,Vm.bind_assoc]
 exact congrArg _ (funext fun _=>hjit)

end GoCoupe.CompiledInstructionTurns
