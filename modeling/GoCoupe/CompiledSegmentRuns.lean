import Mathlib.Algebra.BigOperators.Group.List.Basic
import GoCoupe.CompiledInstructionTurns

/-!
# Segments in both loops

A push segment pushes at once what the byte-code loop pushes in as many turns, and a jump
segment is a push and a jump. The prices are the same, but segments do not look at the stack
limit.
-/

namespace GoCoupe.CompiledSegmentRuns

open InteractionPrograms InteractionLoops EvmMachine EvmOpCodes EvmGas EvmByteCodeLoop List Nat
open EvmCompiledPrograms CompiledCodeLayout CompiledInstructionTurns BigIntegerWords Relation

variable {env:Environment} {con:Contract} {pc:ℕ} {s:List ℤ} {m:Bytes} {g:ℤ}

lemma useGas_or_throw(cost:ℤ)(k:Vm α):(do
  if !(← useGas cost) then Vm.throw .outOfGas
  k:Vm α) ⟨s,m,g⟩=if g<cost then .done (.error .outOfGas) else k ⟨s,m,g-cost⟩:=by
 rw[Vm.bind_apply,useGas_apply]
 split<;>rfl

/-- An instruction with a fixed price that needs no memory. -/
lemma prepare_fixed(h:price ⟨s,m,g⟩=.done (.ok ((0,cost),⟨s,m,g⟩))):prepare price ⟨s,m,g⟩ =
  if g<cost then .done (.error .outOfGas) else .done (.ok ((),⟨s,m,g-cost⟩)):=by
 rw[prepare,Vm.bind_apply,h,Prog.done_bind,Vm.andThen_ok]
 exact useGas_or_throw cost (memoryResize (uint64 0))

lemma byteStep_of_fixed(hop:getOp con.code pc=op)
 (h:calculateGasAndSize con op ⟨s,m,g⟩=.done (.ok ((0,cost),⟨s,m,g⟩))):
 byteStep env con pc ⟨s,m,g⟩ = if g<cost then .done (.error .outOfGas)
  else execOp env con op pc ⟨s,m,g-cost⟩:=by
 rw[byteStep,hop,Vm.bind_apply,prepare_fixed h]
 split<;>rfl

lemma checkStack_of_le(hs:pops ≤ s.length)(hl:s.length-pops+pushes≤Params.stackLimit):
 checkStack pops pushes ⟨s,m,g⟩=.done (.ok ((),⟨s,m,g⟩)):=by
 have hif:¬(pushes>0∧s.length-pops+pushes>Params.stackLimit):=by omega
 rw[checkStack,Vm.bind_apply,require_of_le _ _ _ hs,Prog.done_bind,Vm.andThen_ok,
  Vm.bind_apply,Vm.get_apply,Prog.done_bind,Vm.andThen_ok,if_neg hif]
 rfl

lemma calculateGasAndSize_push(n:Fin 32)(hs:s.length<Params.stackLimit):
 calculateGasAndSize con (.PUSH n) ⟨s,m,g⟩=.done (.ok ((0,3),⟨s,m,g⟩)):=by
 have hbase:baseCheck (.PUSH n)=checkStack 0 1>>=fun _=>pure 3:=rfl
 rw[calculateGasAndSize,hbase,Vm.bind_apply,Vm.bind_apply,checkStack_of_le (zero_le _) (by omega)]
 rfl

lemma calculateGasAndSize_jump(hs:s.length≤Params.stackLimit):
 calculateGasAndSize con .JUMP ⟨d::s,m,g⟩=.done (.ok ((0,8),⟨d::s,m,g⟩)):=by
 have hbase:baseCheck .JUMP=checkStack 1 0>>=fun _=>pure 8:=rfl
 rw[calculateGasAndSize,hbase,Vm.bind_apply,Vm.bind_apply,checkStack_of_le (by simp) (by simpa using hs)]
 rfl

def operand (code:Bytes) (pc:ℕ):ℤ:=(instrAt code pc).data.getD 0

lemma byteStep_push(hop:(getOp con.code pc).isPush)(hs:s.length<Params.stackLimit):
 byteStep env con pc ⟨s,m,g⟩ = if g<3 then .done (.error .outOfGas)
  else .done (.ok (.inl (next con.code pc),⟨operand con.code pc::s,m,g-3⟩)):=by
 cases hn:getOp con.code pc with
 | PUSH n=>
  rw[byteStep_of_fixed hn (calculateGasAndSize_push n hs)]
  unfold operand instrAt CompiledCodeLayout.next
  rw[hn]
  rfl
 | _=>simp[hn,OpCode.isPush]at hop

lemma byteStep_jump(hop:getOp con.code pc=.JUMP)(hs:s.length≤Params.stackLimit):
 byteStep env con pc ⟨d::s,m,g⟩ = if g<8 then .done (.error .outOfGas) else
   (jump con d>>=fun dest=>pure (.inl dest)) ⟨s,m,g-8⟩:=by
 rw[byteStep_of_fixed hop (calculateGasAndSize_jump hs)]
 rfl

/-- Beyond the code the byte-code loop finds STOP, which is free. -/
lemma byteStep_beyond(hpc:con.code.length≤pc)(hg:0≤g):
 byteStep env con pc ⟨s,m,g⟩=.done (.ok (.inr [],⟨s,m,g⟩)):=by
 have hprice:calculateGasAndSize con .STOP ⟨s,m,g⟩=.done (.ok ((0,0),⟨s,m,g⟩)):=rfl
 rw[byteStep_of_fixed (getOp_of_length_le hpc) hprice,if_neg (by omega),sub_zero]
 rfl

/-- The pushes that a program instruction makes without a look at the stack. -/
def blindPushes:ProgramInstruction→ℕ
 | .instr _=>0
 | .jumpSeg _ _ _=>1
 | .pushSeg data _=>data.length

/-- The instruction at `pc` is a push that has become part of a segment. -/
def Fused (code:Bytes) (pc:ℕ):Prop:=
 ∃i k y,(positions code)[i+k]?=some pc ∧
  (optimiseProgram (compile code) code)[i]?=some y ∧ k<blindPushes y

variable {a:Instruction} {code:Bytes} {i:ℕ} {cost:ℤ} {err:Option VmError}

lemma getElem?_instructions(h:(compile code).instructions[i]?=some a):
 ∃pc,(positions code)[i]?=some pc∧a=instrAt code pc:=by
 rw[compile_instructions,getElem?_map,Option.map_eq_some_iff]at h
 obtain⟨pc,hpc,rfl⟩:=h
 exact⟨pc,hpc,rfl⟩

lemma instr_of_at(hat:At code i pc)(h:(compile code).instructions[i]?=some a):
 (positions code)[i]?=some pc∧a=instrAt code pc:=by
 obtain⟨pc',hpc',rfl⟩:=getElem?_instructions h
 rcases hat with hpc|⟨rfl,-⟩
 ·rw[hpc]at hpc'
  cases hpc'
  exact⟨hpc,rfl⟩
 simp at hpc'

lemma blindPushes_jumpSeg(p:Compiled)(code:Bytes)(d:ℤ):
 blindPushes (makeStaticJumpSeg p code d)=1:=by
 unfold makeStaticJumpSeg
 dsimp only
 split<;>rfl

lemma gas_of_push(h:(compile code).instructions[i]?=some a)(hpush:a.op.isPush):a.gas.getD 0=3:=by
 obtain⟨pc,-,rfl⟩:=getElem?_instructions h
 have hop:(getOp code pc).isPush:=hpush
 unfold instrAt newInstr
 cases hn:getOp code pc with
 | PUSH n=>rfl
 | _=>simp[hn,OpCode.isPush]at hop

/-- A push segment costs what its pushes cost. -/
lemma sum_gas(hload:load <+: (compile code).instructions.drop i)
 (hpush:∀a∈load,a.op.isPush):(load.map fun a=>a.gas.getD 0).sum=3*(load.length:ℤ):=by
 have hgas:∀a∈load,a.gas.getD 0=3:=by
  intro a ha
  obtain⟨k,hk⟩:=mem_iff_getElem?.1 (hload.subset ha)
  rw[getElem?_drop]at hk
  exact gas_of_push hk (hpush a ha)
 rw[map_congr_left hgas,map_const',sum_replicate,nsmul_eq_mul,mul_comm]

lemma pushAll_apply(ds s:List ℤ)(m:Bytes)(g:ℤ):
 pushAll ds ⟨s,m,g⟩=.done (.ok ((),⟨ds.reverse++s,m,g⟩)):=by
 induction ds generalizing s with
 | nil=>rfl
 | cons d ds ih=>
  rw[pushAll,Vm.bind_apply,push_apply,Prog.done_bind,Vm.andThen_ok,ih]
  simp

lemma jitStep_pushSeg
 (h:(optimiseProgram (compile con.code) con.code)[i]?=some (.pushSeg data cost)):
 jitStep env con i ⟨s,m,g⟩ = if g<cost then .done (.error .outOfGas)
  else .done (.ok (.inl (i+data.length),⟨data.reverse++s,m,g-cost⟩)):=by
 have hstep:jitStep env con i=doInstr env con (compile con.code) i (.pushSeg data cost) >>=
  fun x=>pure (.inl x.1):=by
  rw[jitStep,h]
  rfl
 have hdo:doInstr env con (compile con.code) i (.pushSeg data cost) ⟨s,m,g⟩ =
  if g<cost then .done (.error .outOfGas)
  else (pushAll data>>=fun _=>pure (i+data.length,[])) ⟨s,m,g-cost⟩:=
  useGas_or_throw cost _
 rw[hstep,Vm.bind_apply,hdo]
 split
 ·rfl
 rw[Vm.bind_apply,pushAll_apply]
 rfl

lemma doInstr_jumpSeg:doInstr env con (compile con.code) i (.jumpSeg pos err cost) ⟨s,m,g⟩ =
  if g<cost then .done (.error .outOfGas)
  else (match err with
   | some e=>Vm.throw e
   | none=>return (pos,[])) ⟨s,m,g-cost⟩:=
 useGas_or_throw cost _

lemma jitStep_jumpSeg
 (h:(optimiseProgram (compile con.code) con.code)[i]?=some (.jumpSeg pos err cost)):
 jitStep env con i ⟨s,m,g⟩ = if g<cost then .done (.error .outOfGas)
  else match err with
   | some e=>.done (.error e)
   | none=>.done (.ok (.inl pos,⟨s,m,g-cost⟩)):=by
 have hstep:jitStep env con i=doInstr env con (compile con.code) i (.jumpSeg pos err cost) >>=
  fun x=>pure (.inl x.1):=by
  rw[jitStep,h]
  rfl
 rw[hstep,Vm.bind_apply,doInstr_jumpSeg]
 split
 ·rfl
 cases err<;>rfl

def loopNext:Except VmError ((ℕ ⊕ Bytes) × Frame)→(ℕ × Frame) ⊕ Halted
 | .error e=>.inr (.error e)
 | .ok (.inl pc,f)=>.inl (pc,f)
 | .ok (.inr ret,f)=>.inr (.ok (ret,f.gas))

variable {σ:Type} {h:Handler Query.Answer σ}

lemma loopStep_run(turn:ℕ→Vm (ℕ ⊕ Bytes))(u:ℕ × Frame)(x:σ):
 (loopStep turn u).run h x=((turn u.1 u.2).run h x).map fun r=>(loopNext r.1,r.2):=by
 rw[loopStep,Prog.run_bind]
 cases (turn u.1 u.2).run h x with
 | none=>rfl
 | some r=>
  obtain⟨e|⟨pc|ret,f⟩,y⟩:=r<;>rfl

variable {f:Frame} {turn:ℕ→Vm (ℕ ⊕ Bytes)}

/-- What holds after a turn that is safe for the answers given holds after a move. -/
lemma post_of_moves(hok:∀q x r y,h q x=some (r,y) → ok q r)(hm:Moves h (loopStep turn) u v)
 (hsafe:(turn u.1.1 u.1.2).Safe True (fun _=>True) ok post):
 post (.ok (.inl v.1.1,v.1.2)):=by
 obtain⟨⟨pc,f⟩,y⟩:=v
 rw[Moves,loopStep_run,Option.map_eq_some_iff]at hm
 obtain⟨⟨r,y'⟩,hrun,hr⟩:=hm
 have hpost:True∧post r:=hsafe.keeps (fun q x r y _ _ hq=>⟨trivial,hok q x r y hq⟩) trivial hrun
 obtain e|⟨pc'|ret,f'⟩:=r
 ·simp[loopNext]at hr
 ·obtain⟨⟨rfl,rfl⟩,-⟩:(pc'=pc∧f'=f)∧y'=y:=by simpa[loopNext]using hr
  exact hpost.2
 simp[loopNext]at hr

lemma loopStep_of_done(hturn:turn pc f=.done r)
 (x:σ):(loopStep turn (pc,f)).run h x=some (loopNext r,x):=by
 rw[loopStep_run,hturn]
 rfl

lemma moves_of_done(hturn:turn pc f=.done (.ok (.inl pc',f')))(x:σ):
 Moves h (loopStep turn) ((pc,f),x) ((pc',f'),x):=loopStep_of_done hturn x

lemma ends_of_error(hturn:turn pc f=.done (.error e))(x:σ):
 Ends h (loopStep turn) ((pc,f),x) (.error e) x:=.stop (loopStep_of_done hturn x)

def Room (code:Bytes) (w:(ℕ × Frame) × σ):Prop:=
 Fused code w.1.1→w.1.2.stack.length<Params.stackLimit

variable {x:σ}

/-- The byte-code loop makes the pushes of a load one by one, or runs out of gas. -/
lemma run_pushes(hat:At con.code i pc)(hload:load <+: (compile con.code).instructions.drop i)
 (hpush:∀a∈load,a.op.isPush)(hg:0≤g)
 (hfused:∀k<load.length,∀p,(positions con.code)[i+k]?=some p→Fused con.code p)
 (hroom:∀w,ReflTransGen (Moves h (loopStep (byteStep env con))) ((pc,⟨s,m,g⟩),x) w→Room con.code w):
 (3*(load.length:ℤ)≤g∧∃p,At con.code (i+load.length) p∧
  ReflTransGen (Moves h (loopStep (byteStep env con))) ((pc,⟨s,m,g⟩),x)
   ((p,⟨(load.map fun a=>a.data.getD 0).reverse++s,m,g-3*load.length⟩),x))∨
 (g<3*(load.length:ℤ)∧
  Ends h (loopStep (byteStep env con)) ((pc,⟨s,m,g⟩),x) (.error .outOfGas) x):=by
 induction load generalizing i pc s g with
 | nil=>exact .inl ⟨by simpa using hg,pc,hat,by simpa using .refl⟩
 | cons a load ih=>
  obtain⟨rest,hrest⟩:=hload
  have ha:(compile con.code).instructions[i]?=some a:=by
   rw[←add_zero i,←getElem?_drop,←hrest]
   rfl
  obtain⟨hpc,rfl⟩:=instr_of_at hat ha
  have hspace:s.length<Params.stackLimit:=hroom _ .refl (hfused 0 (by simp) pc hpc)
  have hop:(getOp con.code pc).isPush:=hpush _ mem_cons_self
  have hstep:byteStep env con pc ⟨s,m,g⟩=_:=byteStep_push hop hspace
  rw[length_cons]
  split at hstep
  ·exact .inr ⟨by push_cast;omega,ends_of_error hstep x⟩
  have hmove:Moves h _ _ _:=moves_of_done hstep x
  have hload':load <+: (compile con.code).instructions.drop (i+1):=
   ⟨rest,by rw[←drop_drop,←hrest];rfl⟩
  have:=ih (at_next hpc) hload' (fun b hb=>hpush b (mem_cons_of_mem _ hb)) (by omega)
   (fun k hk p hp=>hfused (k+1) (by simpa using hk) p (by rwa[←add_assoc,add_right_comm]))
   (fun w hw=>hroom w (.head hmove hw))
  rcases this with⟨hle,p,hp,hpath⟩|⟨hlt,hends⟩
  ·refine .inl ⟨by push_cast;omega,p,by rwa[←add_assoc,add_right_comm],?_⟩
   have hgas:g-3*((load.length+1:ℕ):ℤ)=g-3-3*(load.length:ℤ):=by
    push_cast
    ring
   rw[hgas,map_cons,reverse_cons,append_assoc]
   exact .head hmove hpath
  exact .inr ⟨by push_cast;omega,hends.next hmove⟩

end GoCoupe.CompiledSegmentRuns
