import GoCoupe.EvmInstructionSafety

/-!
# What paying for an instruction guarantees

The price covers the growth of the memory, the gas passed on to another contract, and one more
unit unless the instruction ends the execution. A contract that starts with less than `2 ^ 63`
gas never asks for a range that 64 bits would truncate.
-/

namespace GoCoupe.EvmGasBounds

open EvmMachine EvmOpCodes EvmGas EvmMemory BigIntegerWords EvmSafety EvmInstructionSafety List

def lengthFee (len:ℤ):ℤ:=memoryFee (toWordSize len)

lemma memoryFee_mono{v w:ℤ}(hv:0≤v)(h:v≤w):memoryFee v ≤ memoryFee w:=by
 have hsq:v^2≤w^2:=by nlinarith
 have hdiv:v^2/Params.quadCoeffDiv≤w^2/Params.quadCoeffDiv:=Int.ediv_le_ediv (by decide) hsq
 have hlin:v*Params.memoryGas≤w*Params.memoryGas:=mul_le_mul_of_nonneg_right h (by decide)
 exact add_le_add hlin hdiv

variable {a:ℤ}

lemma toWordSize_mono(h:a≤b):toWordSize a≤toWordSize b:=by
 unfold toWordSize
 omega

lemma toWordSize_nonneg(h:0≤a):0≤toWordSize a:=by
 unfold toWordSize
 omega

lemma lengthFee_mono(ha:0≤a)(h:a≤b):lengthFee a≤lengthFee b:=
 memoryFee_mono (toWordSize_nonneg ha) (toWordSize_mono h)

/-- A memory whose fee can be paid with less than `2 ^ 63` gas is shorter than `2 ^ 63`. -/
lemma lt_of_lengthFee_lt(h:lengthFee len<2^63):len<2^63:=by
 by_contra hlen
 have hw:(2:ℤ)^58≤toWordSize len:=by
  unfold toWordSize
  omega
 have hfee:=memoryFee_mono (by norm_num) hw
 have hbig:(2:ℤ)^63 ≤ memoryFee (2^58):=by decide
 unfold lengthFee at h
 omega

/-- The size in whole words, as `quadMemGas` leaves it. -/
def rounded (size:ℤ):ℤ:=if size>0 then toWordSize size*32 else size

lemma quadMemGas_eq(memLen:ℕ)(size gas:ℤ):quadMemGas memLen size gas =
  (rounded size,gas+(lengthFee (max memLen (rounded size))-lengthFee memLen)):=by
 have hwords:toWordSize (toWordSize size*32)=toWordSize size:=by
  unfold toWordSize
  omega
 unfold quadMemGas rounded
 dsimp only
 split_ifs with hpos hlt
 ·rw[max_eq_right hlt.le,lengthFee,hwords]
  rfl
 ·rw[max_eq_left (not_lt.1 hlt),sub_self,add_zero]
 rw[max_eq_left (by omega),sub_self,add_zero]

/-- The new size covers the old one in whole words, and the price grows by the difference
of the fees. -/
lemma quadMemGas_spec(memLen:ℕ)(size gas:ℤ):
 size≤(quadMemGas memLen size gas).1∧(quadMemGas memLen size gas).2 =
   gas+(lengthFee (max memLen (quadMemGas memLen size gas).1)-lengthFee memLen):=by
 have hle:size≤rounded size:=by
  unfold rounded toWordSize
  split<;>omega
 rw[quadMemGas_eq]
 exact⟨hle,rfl⟩

/-- The least price of an instruction beside the growth of the memory. -/
def priceFloor (op:OpCode) (s:List ℤ):ℤ:=if halting op then 0 else passedOn op s+1

def basePrice (op:OpCode):ℤ:=((baseCheckTable (baseOp op)).map Req.gas).getD 0

variable {c:Prop} {self:Address} {G:ℤ} {s:List ℤ} {m:Bytes} {g:ℤ}

/-- What the switch over the opcode computes: a size that covers every range touched, and a
price above the floor. -/
structure Priced (op:OpCode) (s:List ℤ) (r:ℤ × ℤ):Prop where
 nonneg:0≤r.1
 covers:∀t∈touched op s,t.2=0 ∨ t.1+t.2≤r.1
 price:priceFloor op s≤r.2

lemma calcMemSize_nonneg(ho:0≤off)(hl:0≤len):0≤calcMemSize off len:=by
 unfold calcMemSize
 split<;>omega

lemma calcMemSize_covers(off len:ℤ):len=0∨off+len≤calcMemSize off len:=by
 unfold calcMemSize
 split<;>omega

lemma wordsGas_nonneg(h:0 ≤ size)(hw:0≤wordGas):0≤wordsGas size wordGas:=
 mul_nonneg (toWordSize_nonneg h) hw

variable {op:OpCode} {price gas value x y:ℤ}

/-- An instruction that touches one range, whose price is at least one. -/
lemma priced_of_range(ho:0≤off)(hl:0≤len)(ht:touched op s=[(off,len)])
 (hp:priceFloor op s≤price):Priced op s (calcMemSize off len,price):=by
 refine⟨calcMemSize_nonneg ho hl,?_,hp⟩
 rw[ht]
 intro t htm
 rw[mem_singleton.1 htm]
 exact calcMemSize_covers off len

lemma callGasOf_le:callGasOf gas value ≤
  if 0<(bytes value).length then gas+Params.callValueTransferGas else gas:=by
 have hzero:value=0→u256 value=0:=by
  rintro rfl
  rfl
 unfold callGasOf Params.callStipend Params.callValueTransferGas
 simp only[bytes_length_pos]
 split_ifs<;>omega

lemma newAccountGas_ensures(op:OpCode):Ensures c self G (newAccountGas op base) ⟨x::y::s,m,g⟩
  (fun gas f'=>base≤gas∧f'=⟨x::y::s,m,g⟩):=by
 unfold newAccountGas
 split
 ·refine ensures_step rfl (ensures_ask_bind True.intro fun known _=>ensures_pure ⟨?_,rfl⟩)
  unfold Params.callNewAccountGas
  split<;>omega
 exact ensures_pure ⟨le_rfl,rfl⟩

lemma callGasAndSize_ensures(op:OpCode)(hb:1≤base):Ensures c self G (callGasAndSize op base)
  ⟨gas::addr::value::x::y::x'::y'::s,m,g⟩
  (fun r f'=>(r.1=max (calcMemSize x' y') (calcMemSize x y)∧callGasOf gas value+1≤r.2)∧
   f'=⟨gas::addr::value::x::y::x'::y'::s,m,g⟩):=by
 refine ensures_step rfl (ensures_bind (newAccountGas_ensures op) ?_)
 rintro total _ ⟨htotal,rfl⟩
 refine ensures_of_done rfl ⟨⟨rfl,?_⟩,rfl⟩
 have hle:=@callGasOf_le gas value
 unfold Params.callValueTransferGas at *
 dsimp only
 split_ifs at *<;>omega

lemma floor_of_one_le(hp:passedOn op s=0)(h:1≤price):priceFloor op s≤price:=by
 unfold priceFloor
 split<;>omega

lemma floor_of_halting(hop:halting op=true)(h:0≤price):priceFloor op s≤price:=by
 rw[priceFloor,if_pos hop]
 exact h

lemma priced_of_none(ht:touched op s=[])(hp:priceFloor op s≤price):Priced op s (0,price):=
 ⟨le_rfl,by simp[ht],hp⟩

/-- A call touches the range of its input and the range of its output. -/
lemma priced_of_call(hs:Nonneg (gas::addr::value::x::y::x'::y'::s))
 (ht:touched op (gas::addr::value::x::y::x'::y'::s)=[(x,y),(x',y')])
 (hp:passedOn op (gas::addr::value::x::y::x'::y'::s)=callGasOf gas value)
 (hsize:r.1=max (calcMemSize x' y') (calcMemSize x y))(hprice:callGasOf gas value+1≤r.2):
 Priced op (gas::addr::value::x::y::x'::y'::s) r:=by
 simp only[nonneg_cons]at hs
 obtain⟨hgas,-,-,hx,hy,hx',hy',-⟩:=hs
 have hin:=calcMemSize_covers x y
 have hout:=calcMemSize_covers x' y'
 refine⟨hsize▸le_max_of_le_left (calcMemSize_nonneg hx' hy'),?_,?_⟩
 ·rw[ht,hsize]
  simp only[mem_cons,not_mem_nil,or_false,forall_eq_or_imp,forall_eq]
  omega
 have hnonneg:0≤callGasOf gas value:=callGasOf_nonneg hgas
 unfold priceFloor
 split<;>omega

/-- The switch over the opcode keeps the frame and prices the instruction. -/
lemma opGasAndSize_ensures(con:Contract)(hs:Nonneg s)(hn:need op ≤ s.length):
 Ensures c self G (opGasAndSize con op (basePrice op)) ⟨s,m,g⟩
  (fun r f'=>Priced op s r∧f'=⟨s,m,g⟩):=by
 cases op with
 | SWAP | DUP=>
  exact ensures_step (require_of_le s m g hn)
   (ensures_pure ⟨priced_of_none rfl (floor_of_one_le rfl (by decide)),rfl⟩)
 | LOG n=>
  have hreq:=require_of_le s m g hn
  obtain⟨x,y,s,rfl⟩:=two_of_length (le_trans (Nat.le_add_left 2 n) hn)
  simp only[nonneg_cons]at hs
  have hprice:(1:ℤ)≤0+Params.logGas+n*Params.logTopicGas+y*Params.logDataGas:=by
   unfold Params.logGas Params.logTopicGas Params.logDataGas
   omega
  exact ensures_step hreq (ensures_of_done rfl
   ⟨priced_of_range hs.1 hs.2.1 rfl (floor_of_one_le rfl hprice),rfl⟩)
 | EXP=>
  obtain⟨x,y,s,rfl⟩:=two_of_length hn
  have hprice:(1:ℤ)≤gasSlowStep+(bytes y).length*Params.expByteGas:=by
   unfold gasSlowStep Params.expByteGas
   omega
  exact ensures_of_done rfl ⟨priced_of_none rfl (floor_of_one_le rfl hprice),rfl⟩
 | SSTORE=>
  have hreq:=require_of_le s m g hn
  obtain⟨x,y,s,rfl⟩:=two_of_length hn
  refine ensures_step hreq (ensures_step rfl (ensures_step rfl ?_))
  refine ensures_ask_bind True.intro fun val _=>?_
  split
  ·exact ensures_pure ⟨priced_of_none rfl (floor_of_one_le rfl (by decide)),rfl⟩
  split
  ·refine ensures_ask_bind (by decide:(0:ℤ)≤Params.sstoreRefundGas) fun _ _=>?_
   exact ensures_pure ⟨priced_of_none rfl (floor_of_one_le rfl (by decide)),rfl⟩
  exact ensures_pure ⟨priced_of_none rfl (floor_of_one_le rfl (by decide)),rfl⟩
 | SUICIDE=>
  have hpriced:Priced .SUICIDE s (0,basePrice .SUICIDE):=
   priced_of_none rfl (floor_of_halting rfl (by decide))
  refine ensures_ask_bind True.intro fun deleted _=>?_
  split
  ·refine ensures_ask_bind (by decide:(0:ℤ)≤Params.suicideRefundGas) fun _ _=>?_
   exact ensures_pure ⟨hpriced,rfl⟩
  exact ensures_pure ⟨hpriced,rfl⟩
 | MLOAD=>
  obtain⟨x,s,rfl⟩:=one_of_length hn
  exact ensures_of_done rfl ⟨priced_of_range (nonneg_cons.1 hs).1 (by decide) rfl
   (floor_of_one_le rfl (by decide)),rfl⟩
 | MSTORE8 | MSTORE=>
  obtain⟨x,y,s,rfl⟩:=two_of_length hn
  exact ensures_of_done rfl ⟨priced_of_range (nonneg_cons.1 hs).1 (by decide) rfl
   (floor_of_one_le rfl (by decide)),rfl⟩
 | RETURN=>
  obtain⟨x,y,s,rfl⟩:=two_of_length hn
  simp only[nonneg_cons]at hs
  exact ensures_of_done rfl ⟨priced_of_range hs.1 hs.2.1 rfl
   (floor_of_halting rfl (by decide)),rfl⟩
 | SHA3=>
  obtain⟨x,y,s,rfl⟩:=two_of_length hn
  simp only[nonneg_cons]at hs
  exact ensures_of_done rfl ⟨priced_of_range hs.1 hs.2.1 rfl (floor_of_one_le rfl
   (le_add_of_le_of_nonneg (by decide) (wordsGas_nonneg hs.2.1 (by decide)))),rfl⟩
 | CALLDATACOPY | CODECOPY=>
  obtain⟨x,y,z,s,rfl⟩:=three_of_length hn
  simp only[nonneg_cons]at hs
  exact ensures_of_done rfl ⟨priced_of_range hs.1 hs.2.2.1 rfl (floor_of_one_le rfl
   (le_add_of_le_of_nonneg (by decide) (wordsGas_nonneg hs.2.2.1 (by decide)))),rfl⟩
 | EXTCODECOPY=>
  obtain⟨w,x,y,z,s,rfl⟩:=four_of_length hn
  simp only[nonneg_cons]at hs
  exact ensures_of_done rfl ⟨priced_of_range hs.2.1 hs.2.2.2.1 rfl (floor_of_one_le rfl
   (le_add_of_le_of_nonneg (by decide) (wordsGas_nonneg hs.2.2.2.1 (by decide)))),rfl⟩
 | CREATE=>
  obtain⟨x,y,z,s,rfl⟩:=three_of_length hn
  simp only[nonneg_cons]at hs
  exact ensures_of_done rfl ⟨priced_of_range hs.2.1 hs.2.2.1 rfl
   (floor_of_one_le rfl (by decide)),rfl⟩
 | CALL=>
  obtain⟨gas,addr,value,x,y,x',y',s,rfl⟩:=seven_of_length hn
  exact ensures_mono (callGasAndSize_ensures .CALL (by decide))
   fun r _ hr=>⟨priced_of_call hs rfl rfl hr.1.1 hr.1.2,hr.2⟩
 | CALLCODE=>
  obtain⟨gas,addr,value,x,y,x',y',s,rfl⟩:=seven_of_length hn
  exact ensures_mono (callGasAndSize_ensures .CALLCODE (by decide))
   fun r _ hr=>⟨priced_of_call hs rfl rfl hr.1.1 hr.1.2,hr.2⟩
 | STOP=>exact ensures_pure ⟨priced_of_none rfl (floor_of_halting rfl (by decide)),rfl⟩
 | invalid b=>exact ensures_pure ⟨priced_of_none rfl (floor_of_halting rfl le_rfl),rfl⟩
 | PUSH n=>
  exact ensures_pure ⟨priced_of_none rfl (floor_of_one_le rfl (by decide:(1:ℤ)≤3)),rfl⟩
 | _=>exact ensures_pure ⟨priced_of_none rfl (floor_of_one_le rfl (by decide)),rfl⟩

lemma checkStack_ensures(pops pushes:ℕ):
 Ensures c self G (checkStack pops pushes) ⟨s,m,g⟩ (fun _ f'=>pops ≤ s.length∧f'=⟨s,m,g⟩):=by
 rcases lt_or_ge s.length pops with h|h
 ·have hreq:require pops ⟨s,m,g⟩=.done (.error (.stackUnderflow s.length pops)):=by
   rw[require_apply,if_pos h]
  rw[Ensures,checkStack,Vm.bind_apply,hreq]
  trivial
 refine ensures_step (require_of_le s m g h) (ensures_step rfl ?_)
 split
 ·exact ensures_throw _
 exact ensures_pure ⟨h,rfl⟩

/-- The stack items that `baseCheck` has seen. -/
def checkedPops (op:OpCode):ℕ:=((baseCheckTable (baseOp op)).map Req.stackPop).getD 0

lemma baseCheck_ensures(op:OpCode):Ensures c self G (baseCheck op) ⟨s,m,g⟩
  (fun base f'=>base=basePrice op∧checkedPops op ≤ s.length∧f'=⟨s,m,g⟩):=by
 unfold baseCheck basePrice checkedPops
 cases baseCheckTable (baseOp op) with
 | none=>exact ensures_pure ⟨rfl,Nat.zero_le _,rfl⟩
 | some r=>
  refine ensures_bind (checkStack_ensures r.stackPop r.stackPush) ?_
  rintro _ _ ⟨h,rfl⟩
  exact ensures_pure ⟨rfl,h,rfl⟩

/-- An instruction whose operands are only looked for in the switch fails there if they are
missing. -/
lemma opGasAndSize_underflow(con:Contract)(base:ℤ)(hchecked:checkedPops op ≤ s.length)
 (hn:s.length<need op):∃e,opGasAndSize con op base ⟨s,m,g⟩=.done (.error e):=by
 have key:∀(n:ℕ) (k:Unit→Vm (ℤ × ℤ)),s.length<n →
  (require n>>=k) ⟨s,m,g⟩=.done (.error (.stackUnderflow s.length n)):=by
  intro n k hlt
  rw[Vm.bind_apply,require_apply,if_pos hlt]
  rfl
 cases op with
 | SWAP | DUP | LOG=>exact⟨_,key _ _ hn⟩
 | _=>exact absurd hchecked (not_le.2 hn)

lemma touched_nonneg(hs:Nonneg s):∀t∈touched op s,0≤t.1∧0≤t.2:=by
 unfold touched
 split<;>simp_all

structure Paid (c:Prop) (op:OpCode) (f f₁:Frame):Prop where
 stack:f₁.stack=f.stack
 operands:need op≤f.stack.length
 covered:∀r∈touched op f.stack,Covered c f₁.mem r.1 r.2
 gas_nonneg:0≤f₁.gas
 gas_le:f₁.gas+priceFloor op f.stack≤f.gas
 fee_le:¬c→lengthFee f₁.mem.length+f₁.gas+priceFloor op f.stack ≤
  lengthFee f.mem.length+f.gas

/-- What holds of a frame between two instructions: with less than `2 ^ 63` gas at the start,
the memory has been paid for. -/
structure Solvent (c:Prop) (G:ℤ) (f:Frame):Prop where
 nonneg:Nonneg f.stack
 gas_nonneg:0≤f.gas
 gas_le:f.gas≤G
 fee_le:¬c→lengthFee f.mem.length+f.gas≤G

lemma covered_of_resize{r:ℤ × ℤ}{size:ℕ}(hs:Nonneg s)(hr:Priced op s r)
 (hsize:¬c → r.1 ≤ size)(hlen:¬c→(resize m size).length<2^63):
 ∀t∈touched op s,Covered c (resize m size) t.1 t.2:=by
 intro t ht hc
 refine⟨?_,hlen hc⟩
 have hnn:0≤t.1∧0≤t.2:=touched_nonneg hs t ht
 have hl:=resize_length m size
 have hsz:=hsize hc
 unfold Within
 rcases hr.covers t ht with h|h<;>omega

lemma passedOn_nonneg(hs:Nonneg s):0≤passedOn op s:=by
 unfold passedOn
 split
 ·exact callGasOf_nonneg (nonneg_cons.1 hs).1
 ·exact callGasOf_nonneg (nonneg_cons.1 hs).1
 exact le_rfl

lemma priceFloor_nonneg(hs:Nonneg s):0≤priceFloor op s:=by
 have h:0≤passedOn op s:=passedOn_nonneg hs
 unfold priceFloor
 split<;>omega

lemma calculateGasAndSize_ensures(con:Contract)(op:OpCode)(hs:Nonneg s):
 Ensures c self G (calculateGasAndSize con op) ⟨s,m,g⟩ (fun r f'=>
  f'=⟨s,m,g⟩∧need op ≤ s.length∧∃r₀,Priced op s r₀∧r=quadMemGas m.length r₀.1 r₀.2):=by
 refine ensures_bind (baseCheck_ensures op) ?_
 rintro _ _ ⟨rfl,hchecked,rfl⟩
 rcases lt_or_ge s.length (need op) with hlt|hn
 ·obtain⟨e,he⟩:=opGasAndSize_underflow (m:=m) (g:=g) con (basePrice op) hchecked hlt
  rw[Ensures,gasAndSize,Vm.bind_apply,he]
  trivial
 refine ensures_bind (opGasAndSize_ensures con hs hn) ?_
 rintro r _ ⟨hr,rfl⟩
 exact ensures_of_done rfl ⟨rfl,hn,r,hr,rfl⟩

/-- The memory after paying, in the case that crashes are ruled out. -/
lemma resize_of_fee(hs:Nonneg s)(hr:Priced op s r)
 (hfee:lengthFee m.length+g<2^63)(hpaid:(quadMemGas m.length r.1 r.2).2≤g):
 r.1≤uint64 (quadMemGas m.length r.1 r.2).1∧
  (resize m (uint64 (quadMemGas m.length r.1 r.2).1)).length<2^63∧
  lengthFee (resize m (uint64 (quadMemGas m.length r.1 r.2).1)).length+r.2 =
   lengthFee m.length+(quadMemGas m.length r.1 r.2).2:=by
 obtain⟨hle,hprice⟩:=quadMemGas_spec m.length r.1 r.2
 have hfloor:0≤r.2:=(priceFloor_nonneg hs).trans hr.price
 generalize quadMemGas m.length r.1 r.2=q at *
 have hnonneg:=hr.nonneg
 have hmax:lengthFee (max (m.length:ℤ) q.1)<2^63:=by omega
 have hlt:=lt_of_lengthFee_lt hmax
 have hsize:(uint64 q.1:ℤ)=q.1:=uint64_of_lt (by omega) (by omega)
 have hlen:((resize m (uint64 q.1)).length:ℤ)=max (m.length:ℤ) q.1:=by
  rw[resize_length]
  omega
 refine⟨by omega,by omega,?_⟩
 rw[hlen]
 omega

/-- Paying for an instruction: it fails, or leaves a frame that the instruction can start
from. -/
lemma prepare_ensures(con:Contract)(op:OpCode)(hG:¬c→G<2^63){f:Frame}(hf:Solvent c G f):
 Ensures c self G (prepare (calculateGasAndSize con op)) f (fun _ f₁=>Paid c op f f₁):=by
 obtain⟨s,m,g⟩:=f
 have hs:Nonneg s:=hf.nonneg
 refine ensures_bind (calculateGasAndSize_ensures con op hs) ?_
 rintro _ _ ⟨rfl,hn,r,hr,rfl⟩
 have hfloor:0≤priceFloor op s:=priceFloor_nonneg hs
 obtain⟨hle,hcost⟩:=quadMemGas_spec m.length r.1 r.2
 have hgrow:lengthFee m.length≤lengthFee (max m.length (quadMemGas m.length r.1 r.2).1):=
  lengthFee_mono (by omega) (le_max_left _ _)
 have hprice:=hr.price
 have hbound (hc:¬c):lengthFee m.length+g<2^63:=(hf.fee_le hc).trans_lt (hG hc)
 have hsafe (hc:¬c):=resize_of_fee hs hr (hbound hc)
 generalize quadMemGas m.length r.1 r.2=q at *
 obtain⟨size,cost⟩:=q
 dsimp only at *
 rcases lt_or_ge g cost with hlt|hge
 ·exact ensures_step (useGas_of_lt s m g hlt) (ensures_throw _)
 refine ensures_step (useGas_of_le s m g hge) (ensures_of_done rfl ?_)
 refine⟨rfl,hn,?_,sub_nonneg.2 hge,?_,?_⟩
 ·exact covered_of_resize hs hr (fun hc=>(hsafe hc hge).1) (fun hc=>(hsafe hc hge).2.1)
 ·dsimp only
  omega
 intro hc
 have:=(hsafe hc hge).2.2
 dsimp only
 omega

end GoCoupe.EvmGasBounds
