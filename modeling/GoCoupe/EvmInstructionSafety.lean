import GoCoupe.EvmSafety

/-!
# The instructions one by one

For every opcode the operands it needs, the ranges of memory it touches and the gas it
passes on to another contract, and the proof that its instruction stays within them.
-/

namespace GoCoupe.EvmInstructionSafety

open EvmMachine EvmOpCodes EvmInstructions EvmByteCodeLoop EvmMemory BigIntegerWords EvmSafety List

def need:OpCode→ℕ
 | .SWAP n=>n+2
 | .DUP n=>n+1
 | .LOG n=>n+2
 | op=>((baseCheckTable (baseOp op)).map Req.stackPop).getD 0

/-- The ranges of memory, as offset and length, that an instruction reads or writes. -/
def touched:OpCode→List ℤ→List (ℤ × ℤ)
 | .LOG _,x::y::_=>[(x,y)]
 | .MLOAD,x::_=>[(x,32)]
 | .MSTORE,x::_=>[(x,32)]
 | .MSTORE8,x::_=>[(x,1)]
 | .RETURN,x::y::_=>[(x,y)]
 | .SHA3,x::y::_=>[(x,y)]
 | .CALLDATACOPY,x::_::z::_=>[(x,z)]
 | .CODECOPY,x::_::z::_=>[(x,z)]
 | .EXTCODECOPY,_::x::_::z::_=>[(x,z)]
 | .CREATE,_::x::y::_=>[(x,y)]
 | .CALL,_::_::_::x::y::x'::y'::_=>[(x,y),(x',y')]
 | .CALLCODE,_::_::_::x::y::x'::y'::_=>[(x,y),(x',y')]
 | _,_=>[]

/-- The gas of a call, with the stipend for a call that carries value. -/
def callGasOf (gas value:ℤ):ℤ:=if 0<(bytes (u256 value)).length then gas+Params.callStipend else gas

def passedOn:OpCode→List ℤ→ℤ
 | .CALL,gas::_::value::_=>callGasOf gas value
 | .CALLCODE,gas::_::value::_=>callGasOf gas value
 | _,_=>0

structure Kept (f f':Frame):Prop where
 nonneg:Nonneg f'.stack
 mem:f'.mem.length=f.mem.length
 gas:f'.gas=f.gas

variable (c:Prop) (self:Address) (G:ℤ)

/-- With `n` operands there, the instruction keeps the frame. -/
def Keeps (n:ℕ) (body:Vm Unit):Prop:=
 ∀s m g,Nonneg s→n ≤ s.length → 0≤g→Ensures c self G body ⟨s,m,g⟩ (fun _ f'=>Kept ⟨s,m,g⟩ f')

variable {c self G}

lemma pure_keeps:Keeps c self G 0 (pure ()):=fun _ _ _ hs _ _=>⟨hs,rfl,rfl⟩

lemma push_keeps{x:ℤ}(hx:0≤x):Keeps c self G 0 (push x):=fun _ _ _ hs _ _=>
 ensures_of_done rfl ⟨nonneg_cons.2 ⟨hx,hs⟩,rfl,rfl⟩

lemma unary_keeps{g:ℤ→ℤ}(hg:∀x,0≤x → 0≤g x):Keeps c self G 1 (unary g):=by
 intro s m gas hs hn _
 obtain⟨x,s,rfl⟩:=one_of_length hn
 rw[nonneg_cons]at hs
 exact ensures_of_done rfl ⟨nonneg_cons.2 ⟨hg x hs.1,hs.2⟩,rfl,rfl⟩

lemma binary_keeps{g:ℤ→ℤ→ℤ}(hg:∀x y,0≤x → 0≤y → 0≤g x y):Keeps c self G 2 (binary g):=by
 intro s m gas hs hn _
 obtain⟨x,y,s,rfl⟩:=two_of_length hn
 simp only[nonneg_cons]at hs
 exact ensures_of_done rfl ⟨nonneg_cons.2 ⟨hg x y hs.1 hs.2.1,hs.2.2⟩,rfl,rfl⟩

lemma ternary_keeps{g:ℤ→ℤ→ℤ→ℤ}(hg:∀x y z,0≤g x y z):Keeps c self G 3 (ternary g):=by
 intro s m gas hs hn _
 obtain⟨x,y,z,s,rfl⟩:=three_of_length hn
 simp only[nonneg_cons]at hs
 exact ensures_of_done rfl ⟨nonneg_cons.2 ⟨hg x y z,hs.2.2.2⟩,rfl,rfl⟩

lemma flag_nonneg(b:Bool):0≤flag b:=by
 cases b<;>simp[flag]

lemma bitwise_nonneg{x y:ℤ}(hx:0≤x)(hy:0≤y):0≤Int.land x y∧0≤Int.lor x y∧0≤Int.xor x y:=by
 lift x to ℕ using hx
 lift y to ℕ using hy
 exact⟨Int.natCast_nonneg _,Int.natCast_nonneg _,Int.natCast_nonneg _⟩

lemma ite_nonneg [Decidable p]{x y:ℤ}(hx:0≤x)(hy:0≤y):0 ≤ if p then x else y:=by
 split<;>assumption

variable {c:Prop} {self:Address} {G:ℤ}

lemma opSignExtend_keeps:Keeps c self G 2 opSignExtend:=by
 intro s m g hs hn _
 obtain⟨x,y,s,rfl⟩:=two_of_length hn
 simp only[nonneg_cons]at hs
 refine ensures_step rfl ?_
 dsimp only
 split
 ·exact ensures_of_done rfl ⟨nonneg_cons.2 ⟨u256_nonneg _,hs.2.2⟩,rfl,rfl⟩
 exact ensures_pure ⟨nonneg_cons.2 hs.2,rfl,rfl⟩

lemma opByte_keeps:Keeps c self G 2 opByte:=by
 intro s m g hs hn _
 obtain⟨th,val,s,rfl⟩:=two_of_length hn
 simp only[nonneg_cons]at hs
 refine ensures_step rfl (ensures_step rfl ?_)
 split
 ·have hth:int64 th=th:=int64_of_lt hs.1 (by omega)
  have hlen:=le_leftPadBytes_length (bytes val) 32
  have hin:th.toNat<(leftPadBytes (bytes val) 32).length:=by omega
  dsimp only
  rw[hth,if_neg (by omega),getElem?_eq_getElem hin]
  exact ensures_of_done rfl ⟨nonneg_cons.2 ⟨Int.natCast_nonneg _,hs.2.2⟩,rfl,rfl⟩
 exact ensures_of_done rfl ⟨nonneg_cons.2 ⟨le_rfl,hs.2.2⟩,rfl,rfl⟩

/-- An instruction that looks something up under its operand and pushes it. -/
lemma lookup_keeps{q:ℤ→Query}{v:∀x,(q x).Answer→ℤ}(hq:∀x,Asks self G (q x))
 (hv:∀x r,Answered (q x) r → 0≤v x r):
 Keeps c self G 1 (do let x ← pop;let r ← Vm.ask (q x);push (v x r)):=by
 intro s m g hs hn _
 obtain⟨x,s,rfl⟩:=one_of_length hn
 rw[nonneg_cons]at hs
 refine ensures_step rfl (ensures_ask_bind (hq x) fun r hr=>?_)
 exact ensures_of_done rfl ⟨nonneg_cons.2 ⟨hv x r hr,hs.2⟩,rfl,rfl⟩

lemma opBalance_keeps:Keeps c self G 1 opBalance:=lookup_keeps (fun _=>True.intro) fun _ _ hb=>hb

lemma opExtCodeSize_keeps:Keeps c self G 1 opExtCodeSize:=
 lookup_keeps (fun _=>True.intro) fun _ _ _=>Int.natCast_nonneg _

lemma opSload_keeps(con:Contract):Keeps c self G 1 (opSload con):=
 lookup_keeps (fun _=>True.intro) fun _ _ _=>hashToBig_nonneg _

lemma opSstore_keeps(con:Contract):Keeps c self G 2 (opSstore con):=by
 intro s m g hs hn _
 obtain⟨x,y,s,rfl⟩:=two_of_length hn
 simp only[nonneg_cons]at hs
 refine ensures_step rfl (ensures_step rfl (ensures_ask_bind True.intro ?_))
 intro _ _
 exact ensures_pure ⟨hs.2.2,rfl,rfl⟩

lemma opPop_keeps:Keeps c self G 1 opPop:=by
 intro s m g hs hn _
 obtain⟨x,s,rfl⟩:=one_of_length hn
 exact ensures_of_done rfl ⟨(nonneg_cons.1 hs).2,rfl,rfl⟩

lemma opMsize_keeps:Keeps c self G 0 opMsize:=fun _ _ _ hs _ _=>
 ensures_of_done rfl ⟨nonneg_cons.2 ⟨Int.natCast_nonneg _,hs⟩,rfl,rfl⟩

lemma opGas_keeps:Keeps c self G 0 opGas:=fun _ _ _ hs _ hg=>
 ensures_of_done rfl ⟨nonneg_cons.2 ⟨hg,hs⟩,rfl,rfl⟩

lemma back_ensures(hs:Nonneg s)(hn:n+1 ≤ s.length)(m:Bytes)
 (g:ℤ):Ensures c self G (back (n+1)) ⟨s,m,g⟩ (fun x f'=>0≤x∧f'=⟨s,m,g⟩):=by
 refine ensures_of_done ?_ ⟨hs _ (getElem_mem hn),rfl⟩
 rw[back_apply,getElem?_eq_getElem hn]
 rfl

lemma dup_keeps(n:ℕ):Keeps c self G (n+1) (dup (n+1)):=by
 intro s m g hs hn _
 refine ensures_bind (back_ensures hs hn m g) ?_
 rintro x _ ⟨hx,rfl⟩
 exact ensures_of_done rfl ⟨nonneg_cons.2 ⟨hx,hs⟩,rfl,rfl⟩

lemma nonneg_set(hs:Nonneg s)(hx:0≤x)(n:ℕ):Nonneg (s.set n x):=by
 intro y hy
 rcases mem_or_eq_of_mem_set hy with h|rfl
 ·exact hs y h
 exact hx

lemma swap_keeps(n:ℕ):Keeps c self G (n+1) (swap (n+1)):=by
 intro s m g hs hn _
 refine ensures_bind (back_ensures hs hn m g) ?_
 rintro x _ ⟨hx,rfl⟩
 refine ensures_bind (back_ensures hs (by omega:0+1 ≤ s.length) m g) ?_
 rintro y _ ⟨hy,rfl⟩
 exact ensures_of_done rfl ⟨nonneg_set (nonneg_set hs hy _) hx _,rfl,rfl⟩

variable {s:List ℤ} {m:Bytes} {g x y z w:ℤ}

abbrev Leaves (c:Prop) (self:Address) (G:ℤ) (body:Vm Unit) (f:Frame):Prop:=
 Ensures c self G body f (fun _ f'=>Kept f f')

lemma opSha3_ensures(env:Environment)(hs:Nonneg (x::y::s))(hc:Covered c m x y):
 Leaves c self G (opSha3 env) ⟨x::y::s,m,g⟩:=by
 simp only[nonneg_cons]at hs
 refine ensures_step rfl (ensures_step rfl (ensures_bind (memoryGet_ensures rfl hc) ?_))
 rintro data _ rfl
 exact ensures_of_done rfl ⟨nonneg_cons.2 ⟨hashToBig_nonneg _,hs.2.2⟩,rfl,rfl⟩

lemma opMload_ensures(hs:Nonneg (x::s))(hc:Covered c m x 32):Leaves c self G opMload ⟨x::s,m,g⟩:=by
 rw[nonneg_cons]at hs
 refine ensures_step rfl (ensures_bind (memoryGet_ensures (by decide) hc) ?_)
 rintro data _ rfl
 exact ensures_of_done rfl ⟨nonneg_cons.2 ⟨bytesToBig_nonneg _,hs.2⟩,rfl,rfl⟩

/-- A write to memory by an instruction that has popped its operands. -/
lemma kept_of_write(hs:Nonneg s)(h:Ensures c self G body ⟨s,m,g⟩
  (fun _ f'=>f'.stack=s∧f'.mem.length=m.length∧f'.gas=g)):
 Ensures c self G body ⟨s,m,g⟩ (fun _ f'=>Kept ⟨t,m,g⟩ f'):=
 ensures_mono h fun _ _ hf=>⟨hf.1▸hs,hf.2.1,hf.2.2⟩

lemma opMstore_ensures(hs:Nonneg (x::y::s))(hc:Covered c m x 32):
 Leaves c self G opMstore ⟨x::y::s,m,g⟩:=by
 simp only[nonneg_cons]at hs
 refine ensures_step rfl (ensures_step rfl ?_)
 exact kept_of_write hs.2.2 (memorySet_ensures (by decide) hc)

lemma opMstore8_ensures(hs:Nonneg (x::y::s))(hc:Covered c m x 1):
 Leaves c self G opMstore8 ⟨x::y::s,m,g⟩:=by
 simp only[nonneg_cons]at hs
 refine ensures_step rfl (ensures_step rfl ?_)
 exact kept_of_write hs.2.2 (memorySetByte_ensures hc)

lemma copy_ensures(data:Bytes)(hs:Nonneg (x::y::z::s))(hc:Covered c m x z):
 Leaves c self G (do let mOff ← pop;let cOff ← pop;let l ← pop;copyData data mOff cOff l)
  ⟨x::y::z::s,m,g⟩:=by
 simp only[nonneg_cons]at hs
 refine ensures_step rfl (ensures_step rfl (ensures_step rfl ?_))
 exact kept_of_write hs.2.2.2 (memorySet_ensures rfl hc)

lemma opExtCodeCopy_ensures(hs:Nonneg (w::x::y::z::s))(hc:Covered c m x z):
 Leaves c self G opExtCodeCopy ⟨w::x::y::z::s,m,g⟩:=by
 simp only[nonneg_cons]at hs
 refine ensures_step rfl (ensures_step rfl (ensures_step rfl (ensures_step rfl ?_)))
 refine ensures_ask_bind True.intro fun code _=>?_
 exact kept_of_write hs.2.2.2.2 (memorySet_ensures rfl hc)

lemma popTopics_ensures(hn:n ≤ s.length):
 Ensures c self G (popTopics n) ⟨s,m,g⟩ (fun _ f'=>f'=⟨s.drop n,m,g⟩):=by
 induction n generalizing s with
 | zero=>exact ensures_pure rfl
 | succ n ih=>
  obtain⟨x,s,rfl⟩:=one_of_length (by omega:1 ≤ s.length)
  refine ensures_step rfl (ensures_bind (ih (by simpa using hn)) ?_)
  rintro topics _ rfl
  exact ensures_pure rfl

lemma logTopics_ensures(env:Environment)(con:Contract)
 (hs:Nonneg (x::y::s))(hn:n ≤ s.length)(hc:Covered c m x y):
 Leaves c self G (logTopics env con n) ⟨x::y::s,m,g⟩:=by
 simp only[nonneg_cons]at hs
 refine ensures_step rfl (ensures_step rfl (ensures_bind (popTopics_ensures hn) ?_))
 rintro topics _ rfl
 refine ensures_bind (memoryGet_ensures rfl hc) ?_
 rintro data _ rfl
 refine ensures_ask_bind True.intro fun _ _=>?_
 exact ensures_pure ⟨fun v hv=>hs.2.2 v (mem_of_mem_drop hv),rfl,rfl⟩

/-- A frame as any instruction leaves it that passes on the gas `given`. -/
structure Turned (given:ℤ) (f f':Frame):Prop where
 nonneg:Nonneg f'.stack
 mem:f'.mem.length=f.mem.length
 gas_nonneg:0≤f'.gas
 gas_le:f'.gas≤f.gas+given

lemma Kept.turned(h:Kept f f')(hg:0≤f.gas):Turned 0 f f':=
 ⟨h.nonneg,h.mem,by rw[h.gas];exact hg,by rw[h.gas];omega⟩

/-- The last part of CREATE: pay for the code, if there is gas for it. -/
lemma storeCode_ensures{r:CallResult}(hs:Nonneg s)(hm:m.length=f.mem.length)(hg:0≤g)(hgf:g≤f.gas):
 Ensures c self G (do
  if ← useGas (r.ret.length*Params.createDataGas) then
   let _ ← Vm.ask (.setCode r.address r.ret)
  push (addressToBig r.address)) ⟨s,m,g⟩ (fun _ f'=>Turned 0 f f'):=by
 have hcost:0≤(r.ret.length:ℤ)*Params.createDataGas:=by
  simp only[Params.createDataGas]
  omega
 have hstack:=nonneg_cons.2 ⟨addressToBig_nonneg r.address,hs⟩
 rcases lt_or_ge g (r.ret.length*Params.createDataGas) with h|h
 ·have hle:g≤f.gas+0:=by omega
  exact ensures_step (useGas_of_lt s m g h) (ensures_of_done rfl ⟨hstack,hm,hg,hle⟩)
 have hle:g-r.ret.length*Params.createDataGas≤f.gas+0:=by omega
 refine ensures_step (useGas_of_le s m g h) (ensures_ask_bind True.intro fun _ _=>?_)
 exact ensures_of_done rfl ⟨hstack,hm,sub_nonneg.2 h,hle⟩

lemma opCreate_ensures(hself:con.self=self)(hprice:0≤con.price)
 (hs:Nonneg (x::y::z::s))(hc:Covered c m y z)(hg:0≤g)(hG:g≤G):
 Ensures c self G (opCreate con) ⟨x::y::z::s,m,g⟩
  (fun _ f'=>Turned 0 ⟨x::y::z::s,m,g⟩ f'):=by
 simp only[nonneg_cons]at hs
 refine ensures_step rfl (ensures_step rfl (ensures_step rfl ?_))
 refine ensures_bind (memoryGet_ensures rfl hc) ?_
 rintro input _ rfl
 refine ensures_step rfl (ensures_step (useGas_of_le s m g le_rfl) ?_)
 refine ensures_ask_bind ⟨hself,hg,hG,hprice,hs.1⟩ fun r hr=>?_
 refine ensures_step rfl ?_
 obtain⟨hr0,hrg⟩:0≤r.gas∧r.gas≤g:=hr
 rw[sub_self,zero_add]
 split
 ·exact ensures_of_done rfl ⟨nonneg_cons.2 ⟨le_rfl,hs.2.2.2⟩,rfl,hr0,by
   simpa using hrg⟩
 exact storeCode_ensures hs.2.2.2 rfl hr0 hrg

lemma callGasOf_nonneg(h:0≤gas):0≤callGasOf gas value:=by
 unfold callGasOf Params.callStipend
 split<;>omega

lemma callWith_ensures(kind:CallKind)(hself:con.self=self)(hprice:0≤con.price)
 (hs:Nonneg (gas::addr::value::inOff::inSize::retOff::retSize::s))
 (hin:Covered c m inOff inSize)(hret:Covered c m retOff retSize)(hg:0≤g)
 (hG:callGasOf gas value≤G):
 Ensures c self G (callWith kind con)
  ⟨gas::addr::value::inOff::inSize::retOff::retSize::s,m,g⟩
  (fun _ f'=>Turned (callGasOf gas value)
   ⟨gas::addr::value::inOff::inSize::retOff::retSize::s,m,g⟩ f'):=by
 simp only[nonneg_cons]at hs
 obtain⟨hgas,-,-,-,-,-,-,hs⟩:=hs
 refine ensures_step rfl (ensures_step rfl (ensures_step rfl (ensures_step rfl
  (ensures_step rfl (ensures_step rfl (ensures_step rfl ?_))))))
 refine ensures_bind (memoryGet_ensures rfl hin) ?_
 rintro args _ rfl
 refine ensures_ask_bind ⟨hself,callGasOf_nonneg hgas,hG,hprice,u256_nonneg value⟩ fun r hr=>?_
 obtain⟨hr0,hrg⟩:0≤r.gas∧r.gas≤callGasOf gas value:=hr
 refine ensures_step rfl ?_
 split
 ·exact ensures_of_done rfl ⟨nonneg_cons.2 ⟨le_rfl,hs⟩,rfl,add_nonneg hg hr0,by simpa using hrg⟩
 refine ensures_step rfl (ensures_mono (memorySet_ensures rfl hret) ?_)
 rintro _ f' ⟨hstack,hmem,hgas'⟩
 refine⟨?_,hmem,?_,?_⟩
 ·rw[hstack,nonneg_cons]
  exact⟨by norm_num,hs⟩
 ·rw[hgas']
  exact add_nonneg hg hr0
 rw[hgas']
 simpa using hrg

lemma opSuicide_ensures(con:Contract)(hs:Nonneg (x::s)):
 Leaves c self G (opSuicide con) ⟨x::s,m,g⟩:=by
 refine ensures_ask_bind True.intro fun balance hb=>?_
 refine ensures_step rfl (ensures_ask_bind hb fun _ _=>?_)
 refine ensures_ask_bind True.intro fun _ _=>?_
 exact ensures_pure ⟨(nonneg_cons.1 hs).2,rfl,rfl⟩

variable {pc:ℕ}

lemma turn_of_body(h:Ensures c self G body f (fun _ f'=>Turned given f f')):
 Ensures c self G (do return (.inl ((← plain body none pc)+1):ℕ ⊕ Bytes)) f
  (fun _ f'=>Turned given f f'):=by
 refine ensures_bind (ensures_bind h fun _ f' hf=>?_) fun _ f' hf=>ensures_pure hf
 exact ensures_pure hf

lemma turn_of_kept(hg:0≤f.gas)(h:Ensures c self G body f (fun _ f'=>Kept f f')):
 Ensures c self G (do return (.inl ((← plain body none pc)+1):ℕ ⊕ Bytes)) f
  (fun _ f'=>Turned 0 f f'):=
 turn_of_body (ensures_mono h fun _ _ hf=>hf.turned hg)

lemma turn_of_keeps(h:Keeps c self G n body)(hs:Nonneg s)(hn:n ≤ s.length)(hg:0≤g):
 Ensures c self G (do return (.inl ((← plain body none pc)+1):ℕ ⊕ Bytes)) ⟨s,m,g⟩
  (fun _ f'=>Turned 0 ⟨s,m,g⟩ f'):=
 turn_of_kept hg (h s m g hs hn hg)

lemma jump_ensures(con:Contract)(dest:ℤ)
 (h:∀pc,post pc f):Ensures c self G (jump con dest) f post:=by
 unfold jump
 split
 ·exact ensures_throw _
 exact ensures_pure (h _)

structure Amounts (con:Contract):Prop where
 value:0≤con.value
 price:0≤con.price

/-- An instruction that finds its operands, and its ranges in the memory, turns the frame
into another good one and hands back no more gas than it passes on. -/
lemma execOp_ensures(env:Environment)(hcon:Amounts con)
 (hself:con.self=self)(hs:Nonneg s)(hn:need op ≤ s.length)
 (hcov:∀r∈touched op s,Covered c m r.1 r.2)(hg:0≤g)(hG:g≤G)(hp:passedOn op s≤G):
 Ensures c self G (execOp env con op pc) ⟨s,m,g⟩
  (fun _ f'=>Turned (passedOn op s) ⟨s,m,g⟩ f'):=by
 cases op with
 | STOP=>exact ensures_pure ⟨hs,rfl,hg,(add_zero g).ge⟩
 | ADD | MUL | SUB | EXP=>
  exact turn_of_keeps (binary_keeps fun _ _ _ _=>u256_nonneg _) hs hn hg
 | DIV=>
  exact turn_of_keeps (binary_keeps fun _ _ _ _=>ite_nonneg (u256_nonneg _) le_rfl) hs hn hg
 | SDIV | MOD | SMOD=>
  exact turn_of_keeps (binary_keeps fun _ _ _ _=>ite_nonneg le_rfl (u256_nonneg _)) hs hn hg
 | ADDMOD | MULMOD=>
  exact turn_of_keeps (ternary_keeps fun _ _ _=>ite_nonneg (u256_nonneg _) le_rfl) hs hn hg
 | SIGNEXTEND=>exact turn_of_keeps opSignExtend_keeps hs hn hg
 | ISZERO=>exact turn_of_keeps (unary_keeps fun _ _=>flag_nonneg _) hs hn hg
 | AND=>exact turn_of_keeps (binary_keeps fun _ _ hx hy=>(bitwise_nonneg hx hy).1) hs hn hg
 | OR=>exact turn_of_keeps (binary_keeps fun _ _ hx hy=>(bitwise_nonneg hx hy).2.1) hs hn hg
 | XOR=>exact turn_of_keeps (binary_keeps fun _ _ hx hy=>(bitwise_nonneg hx hy).2.2) hs hn hg
 | NOT=>exact turn_of_keeps (unary_keeps fun _ _=>u256_nonneg _) hs hn hg
 | BYTE=>exact turn_of_keeps opByte_keeps hs hn hg
 | SHA3=>
  obtain⟨x,y,s,rfl⟩:=two_of_length hn
  exact turn_of_kept hg (opSha3_ensures env hs (hcov (x,y) mem_cons_self))
 | ADDRESS | ORIGIN | CALLER | COINBASE=>
  exact turn_of_keeps (push_keeps (addressToBig_nonneg _)) hs hn hg
 | BALANCE=>exact turn_of_keeps opBalance_keeps hs hn hg
 | CALLVALUE=>exact turn_of_keeps (push_keeps hcon.value) hs hn hg
 | CALLDATALOAD=>exact turn_of_keeps (unary_keeps fun _ _=>bytesToBig_nonneg _) hs hn hg
 | CALLDATASIZE | CODESIZE=>exact turn_of_keeps (push_keeps (Int.natCast_nonneg _)) hs hn hg
 | CALLDATACOPY=>
  obtain⟨x,y,z,s,rfl⟩:=three_of_length hn
  exact turn_of_kept hg (copy_ensures con.input hs (hcov (x,z) mem_cons_self))
 | CODECOPY=>
  obtain⟨x,y,z,s,rfl⟩:=three_of_length hn
  exact turn_of_kept hg (copy_ensures con.code hs (hcov (x,z) mem_cons_self))
 | GASPRICE=>exact turn_of_keeps (push_keeps hcon.price) hs hn hg
 | EXTCODESIZE=>exact turn_of_keeps opExtCodeSize_keeps hs hn hg
 | EXTCODECOPY=>
  obtain⟨w,x,y,z,s,rfl⟩:=four_of_length hn
  exact turn_of_kept hg (opExtCodeCopy_ensures hs (hcov (x,z) mem_cons_self))
 | BLOCKHASH=>
  exact turn_of_keeps (unary_keeps fun _ _=>ite_nonneg (hashToBig_nonneg _) le_rfl) hs hn hg
 | TIMESTAMP | NUMBER | DIFFICULTY | GASLIMIT=>
  exact turn_of_keeps (push_keeps (u256_nonneg _)) hs hn hg
 | POP=>exact turn_of_keeps opPop_keeps hs hn hg
 | MLOAD=>
  obtain⟨x,s,rfl⟩:=one_of_length hn
  exact turn_of_kept hg (opMload_ensures hs (hcov (x,32) mem_cons_self))
 | MSTORE=>
  obtain⟨x,y,s,rfl⟩:=two_of_length hn
  exact turn_of_kept hg (opMstore_ensures hs (hcov (x,32) mem_cons_self))
 | MSTORE8=>
  obtain⟨x,y,s,rfl⟩:=two_of_length hn
  exact turn_of_kept hg (opMstore8_ensures hs (hcov (x,1) mem_cons_self))
 | SLOAD=>exact turn_of_keeps (opSload_keeps con) hs hn hg
 | SSTORE=>exact turn_of_keeps (opSstore_keeps con) hs hn hg
 | JUMP=>
  obtain⟨x,s,rfl⟩:=one_of_length hn
  refine ensures_step rfl (ensures_bind (jump_ensures con x fun _=>?_) fun _ f' hf=>hf)
  exact⟨(nonneg_cons.1 hs).2,rfl,hg,(add_zero g).ge⟩
 | JUMPI=>
  obtain⟨x,y,s,rfl⟩:=two_of_length hn
  have hturn:Turned 0 ⟨x::y::s,m,g⟩ ⟨s,m,g⟩:=
   ⟨(nonneg_cons.1 (nonneg_cons.1 hs).2).2,rfl,hg,(add_zero g).ge⟩
  refine ensures_step rfl (ensures_step rfl ?_)
  split
  ·exact ensures_bind (jump_ensures con x fun _=>hturn) fun _ f' hf=>hf
  exact ensures_pure hturn
 | PC=>
  exact ensures_of_done rfl ⟨nonneg_cons.2 ⟨Int.natCast_nonneg _,hs⟩,rfl,hg,(add_zero g).ge⟩
 | MSIZE=>exact turn_of_keeps opMsize_keeps hs hn hg
 | GAS=>exact turn_of_keeps opGas_keeps hs hn hg
 | JUMPDEST=>exact turn_of_keeps pure_keeps hs hn hg
 | PUSH n=>
  exact ensures_of_done rfl ⟨nonneg_cons.2 ⟨bytesToBig_nonneg _,hs⟩,rfl,hg,(add_zero g).ge⟩
 | DUP n=>exact turn_of_keeps (dup_keeps n) hs hn hg
 | SWAP n=>exact turn_of_keeps (swap_keeps (n+1)) hs hn hg
 | LOG n=>
  obtain⟨x,y,s,rfl⟩:=two_of_length (le_trans (Nat.le_add_left 2 n) hn)
  exact turn_of_kept hg (logTopics_ensures env con hs (by simpa[need]using hn)
   (hcov (x,y) mem_cons_self))
 | CREATE=>
  obtain⟨x,y,z,s,rfl⟩:=three_of_length hn
  exact turn_of_body (opCreate_ensures hself hcon.price hs (hcov (y,z) mem_cons_self) hg hG)
 | CALL=>
  obtain⟨_,_,_,x,y,x',y',s,rfl⟩:=seven_of_length hn
  exact turn_of_body (callWith_ensures .call hself hcon.price hs
   (hcov (x,y) mem_cons_self) (hcov (x',y') (by simp[touched])) hg hp)
 | CALLCODE=>
  obtain⟨_,_,_,x,y,x',y',s,rfl⟩:=seven_of_length hn
  exact turn_of_body (callWith_ensures .callCode hself hcon.price hs
   (hcov (x,y) mem_cons_self) (hcov (x',y') (by simp[touched])) hg hp)
 | RETURN=>
  obtain⟨x,y,s,rfl⟩:=two_of_length hn
  refine ensures_step rfl (ensures_step rfl ?_)
  refine ensures_bind (memoryGetPtr_ensures (hcov (x,y) mem_cons_self)) ?_
  rintro ret _ rfl
  exact ensures_pure ⟨(nonneg_cons.1 (nonneg_cons.1 hs).2).2,rfl,hg,(add_zero g).ge⟩
 | SUICIDE=>
  obtain⟨x,s,rfl⟩:=one_of_length hn
  exact ensures_bind (opSuicide_ensures con hs) fun _ f' hf=>hf.turned hg
 | invalid b=>exact ensures_throw _
 | _=>exact turn_of_keeps (binary_keeps fun _ _ _ _=>flag_nonneg _) hs hn hg

/-- The instructions after which the loop does not go on. -/
def halting:OpCode→Bool
 | .STOP=>true
 | .RETURN=>true
 | .SUICIDE=>true
 | .invalid _=>true
 | _=>false

lemma execOp_halts(env:Environment)(hop:halting op=true)
 (hs:Nonneg s)(hn:need op ≤ s.length)(hcov:∀r∈touched op s,Covered c m r.1 r.2):
 Ensures c self G (execOp env con op pc) ⟨s,m,g⟩ (fun r _=>r.isRight):=by
 cases op with
 | STOP=>exact ensures_pure rfl
 | RETURN=>
  obtain⟨x,y,s,rfl⟩:=two_of_length hn
  refine ensures_step rfl (ensures_step rfl ?_)
  exact ensures_bind (memoryGetPtr_ensures (hcov (x,y) mem_cons_self))
   fun _ _ _=>ensures_pure rfl
 | SUICIDE=>
  obtain⟨x,s,rfl⟩:=one_of_length hn
  exact ensures_bind (opSuicide_ensures con hs) fun _ _ _=>ensures_pure rfl
 | invalid b=>exact ensures_throw _
 | _=>exact absurd hop (by simp[halting])

end GoCoupe.EvmInstructionSafety
