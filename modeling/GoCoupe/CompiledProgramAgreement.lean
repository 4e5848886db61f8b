import GoCoupe.CompiledSegmentRuns
import GoCoupe.EvmGasSign

/-!
# Compiled programs against the byte-code loop

Every turn of the compiled loop answers to one or more turns of the byte-code loop, unless the
latter executes a push of a segment on a full stack. It fails there, and the compiled loop does
not notice.
-/

namespace GoCoupe.CompiledProgramAgreement

open InteractionPrograms InteractionLoops EvmMachine EvmOpCodes EvmByteCodeLoop EvmCompiledPrograms Nat
open List hiding lookup
open CompiledCodeLayout CompiledInstructionTurns CompiledSegmentRuns EvmGasSign Relation

/-- What the caller of `Vm.Run` sees: whether it failed, the bytes returned, the gas handed
back. -/
def seen (r:RunResult):Bool × Bytes × ℤ:=(r.err.isSome,r.ret,r.gas)

/-- Program counters that belong together, with one frame. -/
def Together (code:Bytes) (u v:ℕ × Frame):Prop:=At code v.1 u.1 ∧ u.2=v.2 ∧ 0≤u.2.gas

variable {σ:Type} {h:Handler Query.Answer σ} {env:Environment} {con:Contract}

/-- The state of both loops answers, with their outcomes compared by what the caller sees. -/
abbrev Answered (h:Handler Query.Answer σ) (env:Environment) (con:Contract)
 (u v:(ℕ × Frame) × σ):Prop:=
 Answers h (loopStep (byteStep env con)) (loopStep (jitStep env con)) (fun b=>seen (settle b))
  (fun b=>seen (settle b)) (Together con.code) u v

lemma gas_nonneg_of_moves(hback:∀q x r y,h q x=some (r,y)→HandsBack q r)
 (hg:0≤u.1.2.gas)(hmove:Moves h (loopStep (byteStep env con)) u v):
 0≤v.1.2.gas:=
 post_of_moves hback hmove (sound_byteStep env con u.1.1 u.1.2 hg)

variable {i pc:ℕ} {f:Frame} {x:σ}

lemma answered_of_turn(hback:∀q x r y,h q x=some (r,y)→HandsBack q r)
 {t:Vm (Turn con.code)}(hpc:(positions con.code)[i]?=some pc)
 (hbyte:byteStep env con pc = t>>=byteTurn pc)(hjit:jitStep env con i = t>>=jitTurn i)
 (hg:0≤f.gas):Answered h env con ((pc,f),x) ((i,f),x):=by
 have run_eq {turn:ℕ→Vm (ℕ ⊕ Bytes)} {k:Turn con.code→Vm (ℕ ⊕ Bytes)} {n:ℕ}
  (hturn:turn n=t>>=k):(loopStep turn (n,f)).run h x =
   ((t f).run h x).bind fun r=>((Vm.andThen k r.1).run h r.2).map
    fun r=>(loopNext r.1,r.2):=by
  rw[loopStep_run,hturn,Vm.bind_apply,Prog.run_bind]
  cases (t f).run h x<;>rfl
 have hrun1:=run_eq hbyte
 have hrun2:=run_eq hjit
 cases hrun:(t f).run h x with
 | none=>
  rw[hrun]at hrun1 hrun2
  exact .crashes _ .refl hrun1 hrun2
 | some r=>
  rw[hrun]at hrun1 hrun2
  obtain⟨e|⟨r,f'⟩,y⟩:=r
  ·exact .ends _ _ y (.stop hrun1) hrun2 rfl
  cases r with
  | next=>
   have hmove:Moves h (loopStep (byteStep env con)) ((pc,f),x) ((next con.code pc,f'),y):=hrun1
   exact .moves _ ((i+1,f'),y) (.single hmove) hrun2 rfl
    ⟨at_next hpc,rfl,gas_nonneg_of_moves hback hg hmove⟩
  | jump dest=>
   have hmove:Moves h (loopStep (byteStep env con)) ((pc,f),x) ((dest.1,f'),y):=hrun1
   exact .moves _ ((lookup (compile con.code).mapping dest,f'),y) (.single hmove) hrun2 rfl
    ⟨at_lookup (jumpdestsFrom_subset dest.2),rfl,gas_nonneg_of_moves hback hg hmove⟩
  | ret | undefined=>exact .ends _ _ y (.stop hrun1) hrun2 rfl

lemma answered_beyond(hi:i=(positions con.code).length)(hpc:con.code.length≤pc)
 (hg:0≤f.gas):Answered h env con ((pc,f),x) ((i,f),x):=by
 obtain⟨s,m,g⟩:=f
 have hnone:(optimiseProgram (compile con.code) con.code)[i]?=none:=by
  rw[getElem?_eq_none_iff,optimiseProgram_length,compile_instructions,length_map,hi]
 have hjit:jitStep env con i ⟨s,m,g⟩=.done (.ok (.inr [],⟨s,m,g⟩)):=by
  rw[jitStep,hnone]
  rfl
 exact .ends _ _ x (.stop (loopStep_of_done (byteStep_beyond hpc hg) x))
  (loopStep_of_done hjit x) rfl

lemma answered_pushSeg
 (hy:(optimiseProgram (compile con.code) con.code)[i]?=some (makePushSeg load))
 (hpc:(positions con.code)[i]?=some pc)(hne:load≠[])
 (hload:load <+: (compile con.code).instructions.drop i)(hpush:∀a∈load,a.op.isPush)(hg:0≤f.gas)
 (hroom:∀w,ReflTransGen (Moves h (loopStep (byteStep env con))) ((pc,f),x) w →
  Room con.code w):Answered h env con ((pc,f),x) ((i,f),x):=by
 obtain⟨s,m,g⟩:=f
 have hjit:jitStep env con i ⟨s,m,g⟩=_:=jitStep_pushSeg hy
 rw[sum_gas hload hpush,length_map]at hjit
 have hfused:∀k<load.length,∀p,(positions con.code)[i+k]?=some p→Fused con.code p:=
  fun k hk p hp=>⟨i,k,_,hp,hy,by simpa[makePushSeg,blindPushes]using hk⟩
 rcases run_pushes (.inl hpc) hload hpush hg hfused hroom with⟨hle,p,hp,hpath⟩|⟨hlt,hends⟩
 ·rw[if_neg (not_lt.2 hle)]at hjit
  have hpos:0<load.length:=length_pos_iff.2 hne
  have htrans:=(reflTransGen_iff_eq_or_transGen.1 hpath).resolve_left fun he=>by
   have hgas:=congrArg (fun w:(ℕ × Frame) × σ=>w.1.2.gas) he
   dsimp only at hgas
   omega
  exact .moves _ ((i+load.length,_),x) htrans (loopStep_of_done hjit x) rfl
   ⟨hp,rfl,sub_nonneg.2 hle⟩
 rw[if_pos hlt]at hjit
 exact .ends _ _ x hends (loopStep_of_done hjit x) rfl

lemma makeStaticJumpSeg_of_valid(hd:hasDest code d=true):makeStaticJumpSeg (compile code) code d =
  .jumpSeg (lookup (compile code).mapping (BigIntegerWords.uint64 d)) none 11:=by
 rw[makeStaticJumpSeg,jumpIndex,validDest_compile,hd]
 rfl

lemma makeStaticJumpSeg_of_invalid(hd:hasDest code d=false):
 makeStaticJumpSeg (compile code) code d =
  .jumpSeg 0 (some (.invalidJump (getOp code (BigIntegerWords.uint64 d)) d)) 11:=by
 rw[makeStaticJumpSeg,jumpIndex,validDest_compile,hd]
 rfl

lemma answered_jumpSeg(hy:(optimiseProgram (compile con.code) con.code)[i]? =
  some (makeStaticJumpSeg (compile con.code) con.code (a.data.getD 0)))
 (hpc:(positions con.code)[i]?=some pc)(ha:(compile con.code).instructions[i]?=some a)
 (hpush:a.op.isPush)(hb:(compile con.code).instructions[i+1]?=some b)
 (hjump:b.op.isStaticJump)(hg:0≤f.gas)
 (hroom:∀w,ReflTransGen (Moves h (loopStep (byteStep env con))) ((pc,f),x) w →
  Room con.code w):Answered h env con ((pc,f),x) ((i,f),x):=by
 obtain⟨s,m,g⟩:=f
 obtain⟨-,rfl⟩:=instr_of_at (.inl hpc) ha
 obtain⟨-,rfl⟩:=instr_of_at (at_next hpc) hb
 have hop:getOp con.code (next con.code pc)=.JUMP:=of_decide_eq_true hjump
 have hspace:s.length<Params.stackLimit:=
  hroom _ .refl ⟨i,0,_,hpc,hy,by rw[blindPushes_jumpSeg];exact one_pos⟩
 have hbyte:byteStep env con pc ⟨s,m,g⟩=_:=byteStep_push hpush hspace
 have hbyte':byteStep env con (next con.code pc) ⟨operand con.code pc::s,m,g-3⟩=_:=
  byteStep_jump hop hspace.le
 have hshort (hlt:g<11):jitStep env con i ⟨s,m,g⟩=.done (.error .outOfGas):=by
  cases hd:hasDest con.code (operand con.code pc) with
  | false=>
   rw[←operand,makeStaticJumpSeg_of_invalid hd]at hy
   rw[jitStep_jumpSeg hy,if_pos hlt]
  | true=>
   rw[←operand,makeStaticJumpSeg_of_valid hd]at hy
   rw[jitStep_jumpSeg hy,if_pos hlt]
 rcases lt_or_ge g 3 with hlt|hge
 ·rw[if_pos hlt]at hbyte
  exact .ends _ _ x (ends_of_error hbyte x) (loopStep_of_done (hshort (by omega)) x) rfl
 rw[if_neg (not_lt.2 hge)]at hbyte
 have hmove:Moves h _ _ _:=moves_of_done hbyte x
 rcases lt_or_ge (g-3) 8 with hlt|hge
 ·rw[if_pos hlt]at hbyte'
  exact .ends _ _ x ((ends_of_error hbyte' x).next hmove) (loopStep_of_done (hshort (by omega)) x) rfl
 rw[if_neg (not_lt.2 hge),jump]at hbyte'
 cases hd:hasDest con.code (operand con.code pc) with
 | false=>
  rw[hd]at hbyte'
  rw[←operand,makeStaticJumpSeg_of_invalid hd]at hy
  have hjit:jitStep env con i ⟨s,m,g⟩=_:=jitStep_jumpSeg hy
  rw[if_neg (by omega)]at hjit
  exact .ends _ _ x ((ends_of_error hbyte' x).next hmove) (loopStep_of_done hjit x) rfl
 | true=>
  rw[hd]at hbyte'
  rw[←operand,makeStaticJumpSeg_of_valid hd]at hy
  have hjit:jitStep env con i ⟨s,m,g⟩=_:=jitStep_jumpSeg hy
  rw[if_neg (by omega)]at hjit
  have hgas:g-3-8=g-11:=by omega
  rw[hgas]at hbyte'
  have hmove':Moves h _ _ _:=moves_of_done hbyte' x
  exact .moves _ _ (.tail (.single hmove) hmove') (moves_of_done hjit x) rfl
   ⟨at_lookup (jumpdestsFrom_subset (mem_of_hasDest hd)),rfl,by dsimp only;omega⟩

/-- The compiled loop answers to the byte-code loop as long as the latter finds room for the
pushes of segments. -/
lemma answered(hback:∀q x r y,h q x=some (r,y)→HandsBack q r)
 (u v:(ℕ × Frame) × σ)(huv:Together con.code u.1 v.1)(hx:u.2=v.2)
 (hroom:∀w,ReflTransGen (Moves h (loopStep (byteStep env con))) u w→Room con.code w):
 Answered h env con u v:=by
 obtain⟨⟨pc,f⟩,x⟩:=u
 obtain⟨⟨i,f'⟩,x'⟩:=v
 obtain rfl:x=x':=hx
 obtain⟨hat,rfl,hg⟩:=huv
 rcases hat with hpc|⟨hi,hlen⟩
 ·have hlt:i<(optimiseProgram (compile con.code) con.code).length:=by
   rw[optimiseProgram_length,compile_instructions,length_map]
   exact (List.getElem?_eq_some_iff.1 hpc).1
  have hy:=getElem?_eq_getElem hlt
  generalize (optimiseProgram (compile con.code) con.code)[i]=y at hy
  cases optimiseProgram_stands hy with
  | instr a ha=>
   obtain⟨-,rfl⟩:=instr_of_at (.inl hpc) ha
   obtain⟨t,hbyte,hjit⟩:=exists_turn env hy
   exact answered_of_turn hback hpc hbyte hjit hg
  | pushes load hne hload hpush=>exact answered_pushSeg hy hpc hne hload hpush hg hroom
  | jump a b ha hpush hb hjump=>exact answered_jumpSeg hy hpc ha hpush hb hjump hg hroom
 exact answered_beyond hi hlen hg

variable {g:ℤ}

def silent:Handler Query.Answer Unit:=fun _ _=>none

def plainEnvironment:Environment:=
 ⟨⟨fun _=>0,fun _=>[],fun _=>[],fun _ _=>none⟩,0,0,0,0,0,0,fun _=>0⟩

def codeOnly (code:Bytes):Contract:=⟨0,0,code,[],none,0,0⟩

/-- An instruction starts here, or the code has ended. -/
def Boundary (code:Bytes) (pc:ℕ):Prop:=pc∈positions code ∨ code.length≤pc

lemma boundary_next(hpc:Boundary code pc):Boundary code (CompiledCodeLayout.next code pc):=by
 obtain hpc|hpc:=hpc
 ·obtain⟨i,hi⟩:=mem_iff_getElem?.1 hpc
  exact (at_next hi).imp mem_of_getElem? And.right
 ·exact .inr (hpc.trans (by unfold CompiledCodeLayout.next;omega))

lemma boundary_of_moves(hu:Boundary con.code u.1.1)
 (hmove:Moves h (loopStep (byteStep env con)) u v):Boundary con.code v.1.1:=by
 obtain⟨⟨pc,f⟩,x⟩:=u
 obtain⟨⟨pc',f₁⟩,y'⟩:=v
 obtain⟨t,ht,-⟩:=alike env 0 (rfl:getOp con.code pc=_)
 rw[Moves,loopStep_run,byteStep,ht,←Vm.bind_assoc,Vm.bind_apply,Prog.run_bind]at hmove
 obtain⟨r,hr,hmove⟩:=Option.map_eq_some_iff.1 hmove
 obtain⟨⟨e|⟨t,f'⟩,y⟩,-,hr⟩:=Option.bind_eq_some_iff.1 hr
 ·cases hr
  cases hmove
 cases t with
 | next=>
  cases hr
  cases hmove
  exact boundary_next hu
 | jump dest=>
  cases hr
  cases hmove
  exact .inl (jumpdestsFrom_subset dest.2)
 | ret b | undefined op=>
  cases hr
  cases hmove

/-- Push data is never executed: the loop of `Vm.Run` reads its opcodes only where instructions
start. -/
theorem executes_instruction_starts (h : Handler Query.Answer σ) (env : Environment)
    (con : Contract) (g : ℤ) (x : σ) (u : (ℕ × Frame) × σ)
    (hu : ReflTransGen (Moves h (loopStep (byteStep env con))) ((0, .init g), x) u) :
    u.1.1 ∈ positions con.code ∨ con.code.length ≤ u.1.1 := by
 induction hu with
 | refl=>
  cases hcode:con.code with
  | nil=>exact .inr le_rfl
  | cons b code=>exact .inl mem_cons_self
 | tail _ hmove ih=>exact boundary_of_moves ih hmove

theorem executes_instruction_starts_push :
    2 ∈ positions [0x60, 0x5b, 0x00] ∨ [0x60, 0x5b, 0x00].length ≤ 2 :=
 executes_instruction_starts silent plainEnvironment (codeOnly [0x60,0x5b,0x00]) 100 ()
  ((2,⟨[0x5b],[],97⟩),()) (.single rfl)

end GoCoupe.CompiledProgramAgreement
