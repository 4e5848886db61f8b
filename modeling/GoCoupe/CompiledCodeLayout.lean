import GoCoupe.EvmCompiledPrograms

/-!
# Where the instructions of a program lie

The compiled program has one instruction for each position at which an instruction starts in
the code. The optimiser only replaces an instruction by a segment that stands for it and its
successors.
-/

namespace GoCoupe.CompiledCodeLayout

open EvmOpCodes EvmByteCodeLoop EvmCompiledPrograms
open List hiding lookup

def next (code:Bytes) (pc:ℕ):ℕ:=pc+(getOp code pc).dataSize+1

def positionsFrom (code:Bytes):ℕ→ℕ→List ℕ
 | 0,_=>[]
 | fuel+1,pc=>if pc<code.length then pc::positionsFrom code fuel (next code pc) else []

def positions (code:Bytes):List ℕ:=positionsFrom code code.length 0

variable {code:Bytes} {pc:ℕ}

lemma le_of_mem_positionsFrom(h:x∈positionsFrom code fuel pc):pc≤x:=by
 induction fuel generalizing pc with
 | zero=>simp[positionsFrom]at h
 | succ fuel ih=>
  rw[positionsFrom]at h
  split at h
  ·rcases mem_cons.1 h with rfl|h
   ·exact le_rfl
   have:=ih h
   unfold next at this
   omega
  simp at h

/-- The position of an index, which for the index after the last instruction is any
position beyond the code. -/
def At (code:Bytes) (i pc:ℕ):Prop:=
 (positions code)[i]?=some pc ∨ i=(positions code).length ∧ code.length≤pc

lemma positionsFrom_next(hfuel:code.length≤fuel+pc)(h:(positionsFrom code fuel pc)[i]?=some x):
 (positionsFrom code fuel pc)[i+1]?=some (next code x)∨
  i+1=(positionsFrom code fuel pc).length∧code.length≤next code x:=by
 induction fuel generalizing pc i with
 | zero=>simp[positionsFrom]at h
 | succ fuel ih=>
  rw[positionsFrom]at h ⊢
  split at h
  ·rename_i hpc
   rw[if_pos hpc]
   have hnext:code.length≤fuel+next code pc:=by
    unfold next
    omega
   cases i with
   | zero=>
    obtain rfl:pc=x:=by simpa using h
    rw[getElem?_cons_succ,length_cons]
    cases fuel with
    | zero=>exact .inr ⟨by simp[positionsFrom],by omega⟩
    | succ fuel=>
     rw[positionsFrom]
     split
     ·exact .inl rfl
     exact .inr ⟨rfl,by omega⟩
   | succ i=>
    rw[getElem?_cons_succ]at h ⊢
    rw[length_cons]
    simpa using ih hnext h
  simp at h

lemma at_next(h:(positions code)[i]?=some pc):At code (i+1) (next code pc):=
 positionsFrom_next (by omega) h

def instrAt (code:Bytes) (pc:ℕ):Instruction:=
 newInstr (getOp code pc) pc (compileOp code pc (getOp code pc)).1
  (compileOp code pc (getOp code pc)).2

lemma compileFrom_instructions(code:Bytes)(fuel pc:ℕ)(p:Compiled):
 (compileFrom code fuel pc p).instructions =
  p.instructions++(positionsFrom code fuel pc).map (instrAt code):=by
 induction fuel generalizing pc p with
 | zero=>simp[compileFrom,positionsFrom]
 | succ fuel ih=>
  rw[compileFrom,positionsFrom]
  split
  ·dsimp only
   rw[ih]
   split<;>simp[addInstr,instrAt,next]
  simp

lemma compile_instructions(code:Bytes):
 (compile code).instructions=(positions code).map (instrAt code):=by
 rw[compile,compileFrom_instructions]
 rfl

lemma compileFrom_destinations(code:Bytes)(fuel pc x:ℕ)(p:Compiled):
 x∈(compileFrom code fuel pc p).destinations↔x∈p.destinations∨x∈jumpdestsFrom code fuel pc:=by
 induction fuel generalizing pc p with
 | zero=>simp[compileFrom,jumpdestsFrom]
 | succ fuel ih=>
  rw[compileFrom,jumpdestsFrom]
  split
  ·dsimp only
   rw[ih]
   cases hop:getOp code pc<;>simp[addInstr,OpCode.dataSize,or_assoc,or_left_comm]
  simp

lemma mem_destinations(code:Bytes)(x:ℕ):x∈(compile code).destinations↔x∈jumpdests code:=by
 rw[compile,compileFrom_destinations]
 simp[jumpdests]

lemma jumpdestsFrom_succ(code:Bytes)(fuel pc:ℕ):
 jumpdestsFrom code (fuel+1) pc=if pc<code.length then
   (if getOp code pc=.JUMPDEST then [pc] else [])++jumpdestsFrom code fuel (next code pc)
  else []:=by
 rw[jumpdestsFrom,next]
 split
 ·cases getOp code pc<;>simp[OpCode.dataSize]
 rfl

variable {fuel x:ℕ}

lemma jumpdestsFrom_subset(h:x∈jumpdestsFrom code fuel pc):x∈positionsFrom code fuel pc:=by
 induction fuel generalizing pc with
 | zero=>simp[jumpdestsFrom]at h
 | succ fuel ih=>
  rw[jumpdestsFrom_succ]at h
  rw[positionsFrom]
  split at h
  ·rw[if_pos ‹_›]
   rcases mem_append.1 h with h|h
   ·split at h
    ·rw[mem_singleton.1 h]
     exact mem_cons_self
    simp at h
   exact mem_cons_of_mem pc (ih h)
  simp at h

lemma lookup_cons(mapping:List (ℕ × ℕ))(pc i x:ℕ):
 lookup ((pc,i)::mapping) x=if x=pc then i else lookup mapping x:=by
 unfold lookup
 rw[List.lookup_cons]
 split<;>simp_all

lemma lookup_of_lt(p:Compiled)(h:x<pc):
 lookup (compileFrom code fuel pc p).mapping x=lookup p.mapping x:=by
 induction fuel generalizing pc p with
 | zero=>rfl
 | succ fuel ih=>
  rw[compileFrom]
  split
  ·dsimp only
   rw[ih _ (by omega)]
   have hne:x≠pc:=by omega
   split<;>rw[addInstr,lookup_cons,if_neg hne]
  rfl

lemma lookup_of_mem(p:Compiled)(h:x∈positionsFrom code fuel pc):
 lookup (compileFrom code fuel pc p).mapping x =
  p.instructions.length+(positionsFrom code fuel pc).idxOf x:=by
 induction fuel generalizing pc p with
 | zero=>simp[positionsFrom]at h
 | succ fuel ih=>
  rw[positionsFrom]at h ⊢
  split at h
  ·rename_i hpc
   rw[compileFrom,if_pos hpc,if_pos hpc]
   dsimp only
   rcases mem_cons.1 h with rfl|h
   ·rw[lookup_of_lt _ (by omega),idxOf_cons_self]
    split<;>rw[addInstr,lookup_cons,if_pos rfl]<;>rfl
   have hlt:=le_of_mem_positionsFrom h
   have hne:pc≠x:=by
    unfold next at hlt
    omega
   rw[idxOf_cons_ne _ hne]
   refine (ih _ h).trans ?_
   split<;>simp[addInstr]<;>omega
  simp at h

lemma lookup_compile(h:x∈positions code):
 lookup (compile code).mapping x=(positions code).idxOf x:=by
 rw[compile,lookup_of_mem _ h]
 exact Nat.zero_add _

lemma at_lookup(h:x∈positions code):At code (lookup (compile code).mapping x) x:=by
 rw[lookup_compile h]
 exact .inl (getElem?_idxOf h)

variable (p:Compiled) (code:Bytes)

/-- What may stand at an index of the optimised program: the instruction compiled for it, the
push segment of a run of pushes that starts there, or the jump segment of a push that a
JUMP follows. -/
inductive Stands (i:ℕ):ProgramInstruction→Prop
 | instr (a:Instruction) (ha:p.instructions[i]?=some a):Stands i (.instr a)
 | pushes (load:List Instruction) (hne:load≠[]) (hload:load <+: p.instructions.drop i)
  (hpush:∀a∈load,a.op.isPush):Stands i (makePushSeg load)
 | jump (a b:Instruction) (ha:p.instructions[i]?=some a) (hpush:a.op.isPush)
  (hb:p.instructions[i+1]?=some b) (hjump:b.op.isStaticJump) :
  Stands i (makeStaticJumpSeg p code (a.data.getD 0))

variable {p code}

lemma stands_set{out:List ProgramInstruction}{k:ℕ}{x:ProgramInstruction}
 (hout:∀i y,out[i]?=some y → Stands p code i y)(hx:Stands p code k x):
 ∀i y,(out.set k x)[i]?=some y → Stands p code i y:=by
 intro i y hy
 rw[getElem?_set]at hy
 split at hy
 ·rename_i hk
  subst hk
  split at hy
  ·obtain rfl:x=y:=by simpa using hy
   exact hx
  simp at hy
 exact hout i y hy

variable {front part rest:List Instruction}

/-- The push segment of a load, or of a part of it, stands where the load starts. -/
lemma stands_pushSeg(hp:p.instructions=front++load++rest)
 (hne:part≠[])(hpart:part <+: load)(hpush:∀a∈load,a.op.isPush):
 Stands p code front.length (makePushSeg part):=by
 refine .pushes part hne ?_ fun a ha=>hpush a (hpart.subset ha)
 rw[hp,append_assoc,drop_left]
 exact hpart.trans (prefix_append load rest)

lemma stands_jumpSeg(hp:p.instructions=front++(part++[last])++instr::rest)(hpush:last.op.isPush)
 (hjump:instr.op.isStaticJump):
 Stands p code (front.length+part.length) (makeStaticJumpSeg p code (last.data.getD 0)):=by
 have hp':p.instructions=(front++part)++last::instr::rest:=by simp[hp]
 rw[←length_append]
 refine .jump last instr ?_ hpush ?_ hjump
 ·rw[hp',getElem?_append_right le_rfl,Nat.sub_self]
  rfl
 rw[hp',getElem?_append_right (by omega),Nat.add_sub_cancel_left]
 rfl

/-- The loop of the optimiser: `front` has been dealt with, the pushes of `load` follow it,
and then the rest. -/
lemma optimiseFrom_stands(front load rest:List Instruction)
 (out:List ProgramInstruction)(hp:p.instructions=front++load++rest)
 (hpush:∀a∈load,a.op.isPush)(hout:∀i y,out[i]?=some y → Stands p code i y):
 ∀i y,(optimiseFrom p code rest (front.length+load.length) load out)[i]?=some y →
  Stands p code i y:=by
 induction rest generalizing front load out with
 | nil=>exact hout
 | cons instr rest ih=>
  have hfresh (out':List ProgramInstruction) (hout':∀i y,out'[i]?=some y → Stands p code i y) :
   ∀i y,(optimiseFrom p code rest (front.length+load.length+1) [] out')[i]?=some y →
    Stands p code i y:=by
   have h:=ih (front++load++[instr]) [] out' (by simp[hp]) (by simp) hout'
   simpa[Nat.add_assoc]using h
  rw[optimiseFrom]
  split
  ·rename_i hop
   have hstep:=ih front (load++[instr]) out (by simp[hp]) (by
    intro a ha
    rcases mem_append.1 ha with ha|ha
    ·exact hpush a ha
    rw[mem_singleton.1 ha]
    exact hop) hout
   rwa[length_append,length_singleton,←Nat.add_assoc]at hstep
  split
  ·rename_i hjump
   rcases eq_nil_or_concat' load with rfl|⟨part,last,rfl⟩
   ·exact hfresh out hout
   rw[getLast?_concat,dropLast_concat]
   have hi:front.length+(part++[last]).length-part.length-1=front.length:=by
    simp
    omega
   have hj:front.length+(part++[last]).length-1=front.length+part.length:=by
    simp
   rw[hi,hj]
   refine hfresh _ (stands_set ?_ (stands_jumpSeg hp (hpush last (by simp)) hjump))
   split
   ·rename_i hlen
    have hne:part≠[]:=by
     rintro rfl
     simp at hlen
    exact stands_set hout (stands_pushSeg hp hne (prefix_append part [last]) hpush)
   exact hout
  refine hfresh _ ?_
  split
  ·rename_i hlen
   have hne:load≠[]:=by
    rintro rfl
    simp at hlen
   rw[Nat.add_sub_cancel]
   exact stands_set hout (stands_pushSeg hp hne prefix_rfl hpush)
  exact hout

lemma optimiseProgram_stands(h:(optimiseProgram p code)[i]?=some y):Stands p code i y:=by
 refine optimiseFrom_stands [] [] p.instructions _ rfl (by simp) ?_ i y h
 intro i y hy
 rw[getElem?_map,Option.map_eq_some_iff]at hy
 obtain⟨a,ha,rfl⟩:=hy
 exact .instr a ha

lemma optimiseFrom_length(rest load:List Instruction)(i:ℕ)
 (out:List ProgramInstruction):(optimiseFrom p code rest i load out).length=out.length:=by
 induction rest generalizing load i out with
 | nil=>rfl
 | cons instr rest ih=>
  rw[optimiseFrom]
  split
  ·exact ih ..
  split
  ·split
   ·exact ih ..
   rw[ih,length_set]
   split<;>simp
  rw[ih]
  split<;>simp

lemma optimiseProgram_length:(optimiseProgram p code).length=p.instructions.length:=by
 rw[optimiseProgram,optimiseFrom_length,length_map]

end GoCoupe.CompiledCodeLayout
