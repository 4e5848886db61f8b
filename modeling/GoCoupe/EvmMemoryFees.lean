import GoCoupe.EvmGasBounds
import GoCoupe.CompiledProgramAgreement

/-!
# What the memory of a contract has cost

The byte-code loop with a record of what `quadMemGas` charges, stopped also between paying and
executing. The fees add up to the fee for the memory as long as every resize is to the size
that was billed; only the resize truncates it to 64 bits.
-/

namespace GoCoupe.EvmMemoryFees

open InteractionPrograms InteractionLoops Relation EvmMachine EvmOpCodes EvmGas EvmByteCodeLoop List
open EvmMemory BigIntegerWords EvmFrameInvariants EvmGasBounds CompiledProgramAgreement

/-- The arguments of `quadMemGas`, the length of the memory and the size asked for, and the
fee that it adds to the price. -/
structure Bill where
 len:ℕ
 size:ℤ
 fee:ℤ

/-- The part of a turn before the instruction is executed. -/
def pay (con:Contract) (op:OpCode):Vm Bill:=do
 let base ← baseCheck op
 let r ← opGasAndSize con op base
 let f ← Vm.get
 let q:=quadMemGas f.mem.length r.1 r.2
 prepare (pure q)
 return ⟨f.mem.length,r.1,q.2-r.2⟩

lemma byteStep_eq_pay(env:Environment)(con:Contract)(pc:ℕ):
 byteStep env con pc=pay con (getOp con.code pc)>>=fun _=>execOp env con (getOp con.code pc) pc:=by
 have hprepare (m:Vm (ℤ × ℤ)):prepare m=m>>=fun q=>prepare (pure q):=rfl
 rw[byteStep,hprepare,calculateGasAndSize,pay]
 simp only[gasAndSize,Vm.bind_assoc,Vm.pure_bind]

structure Machine where
 pc:ℕ
 frame:Frame
 paid:Bool
 bills:List Bill

def Machine.start (g:ℤ):Machine:=⟨0,.init g,false,[]⟩

/-- An instruction is paid for, or executed when it has been. -/
def step (env:Environment) (con:Contract) (u:Machine):Prog Query.Answer (Machine ⊕ Halted):=
 if u.paid then
  loopStep (execOp env con (getOp con.code u.pc)) (u.pc,u.frame)>>=fun r=>
   .done (r.map (fun v=>⟨v.1,v.2,false,u.bills⟩) id)
 else
  pay con (getOp con.code u.pc) u.frame>>=fun
   | .error e=>.done (.inr (.error e))
   | .ok (b,f)=>.done (.inl ⟨u.pc,f,true,b::u.bills⟩)

/-- Without the bills, two steps are one turn of the loop. -/
lemma step_step(env:Environment)(con:Contract)(pc:ℕ)(f:Frame)(bills:List Bill):
 (step env con ⟨pc,f,false,bills⟩ >>= Sum.elim (step env con) (fun b=>.done (.inr b))) >>=
  (fun r=>.done (r.map (fun v=>(v.pc,v.frame)) id))=loopStep (byteStep env con) (pc,f):=by
 rw[loopStep,byteStep_eq_pay,Vm.bind_apply,step,if_neg Bool.false_ne_true]
 simp only[Prog.bind_assoc]
 refine congrArg _ (funext fun r=>?_)
 obtain e|⟨b,f'⟩:=r
 ·rfl
 rw[Prog.done_bind,Sum.elim_inl,step,if_pos rfl,loopStep,Vm.andThen_ok]
 simp only[Prog.bind_assoc]
 refine congrArg _ (funext fun r=>?_)
 obtain e|⟨pc'|ret,f''⟩:=r<;>rfl

variable {σ:Type}

/-- The states that a run of the contract comes to. -/
def Reached (h:Handler Query.Answer σ) (env:Environment) (con:Contract) (g:ℤ) (y:σ):
 Machine × σ→Prop:=
 ReflTransGen (Moves h (step env con)) (.start g,y)

/-- The size fits into 64 bits, or neither it nor its low bits are beyond the memory. -/
def Bill.Resizable (b:Bill):Prop:=
 0≤rounded b.size ∧ rounded b.size<2^64 ∨ rounded b.size≤b.len ∧ uint64 (rounded b.size)≤b.len

/-- The memory has whole words, and the fees so far are the fee for their number. -/
structure Balanced (u:Machine):Prop where
 whole:32 ∣ u.frame.mem.length
 fees:(u.bills.map Bill.fee).sum = 3*(u.frame.mem.length/32:ℕ)+(u.frame.mem.length/32:ℕ)^2/512

/-- What paying leaves: a bill for a memory of `n` bytes, and one of `n'` bytes. -/
structure Charged (n:ℕ) (b:Bill) (n':ℕ):Prop where
 len:b.len=n
 fee:b.fee=lengthFee (max n (rounded b.size))-lengthFee n
 resized:n'=max n (uint64 (rounded b.size))

def memoryLength (len:ℕ):FrameInvariant where
 answers _ _:=True
 words:=False
 size n _:=n=len
 used _ _ _ _ h:=h
 called _ _ _ _ _ _ _ _ _ _ _ h:=h
 created _ _ _ _ _ _ _ _ _ h:=h

lemma holds_memoryLength(f:Frame):(memoryLength f.mem.length).Holds f:=⟨fun _ _ hw=>hw.elim,rfl⟩

lemma prepare_pure(q:ℤ × ℤ)(s:List ℤ)(m:Bytes)(g:ℤ):prepare (pure q) ⟨s,m,g⟩ =
 if g<q.2 then .done (.error .outOfGas)
 else .done (.ok ((),⟨s,resize m (uint64 q.1),g-q.2⟩)):=by
 obtain⟨size,cost⟩:=q
 rw[prepare,Vm.pure_bind]
 dsimp only
 rw[Vm.bind_apply,useGas_apply]
 split<;>rfl

lemma pay_charges(con:Contract)(op:OpCode)(f:Frame):
 (pay con op f).Safe True (fun _=>True) (fun _ _=>True) (fun r=>
  ∀b f',r=.ok (b,f') → Charged f.mem.length b f'.mem.length):=by
 refine (keeps_baseCheck op f (holds_memoryLength f)).bind ?_
 rintro (e|⟨base,f₁⟩) h1
 ·nofun
 refine (keeps_opGasAndSize con op base f₁ h1.2).bind ?_
 rintro (e|⟨r,⟨s,m,g⟩⟩) h2
 ·nofun
 have hlen:m.length=f.mem.length:=h2.2.2
 rw[Vm.andThen_ok,Vm.bind_apply,Vm.get_apply,Prog.done_bind,Vm.andThen_ok,Vm.bind_apply,
  prepare_pure,quadMemGas_eq,hlen]
 split_ifs
 ·nofun
 rintro b f' hb
 cases hb
 exact⟨rfl,add_sub_cancel_left _ _,by rw[resize_length,hlen]⟩

lemma memoryFee_strictMono(hv:0≤v)(h:v<w):memoryFee v < memoryFee w:=by
 have hle:=memoryFee_mono (v:=v+1) (by omega) h
 have hdiv:v^2/Params.quadCoeffDiv≤(v+1)^2/Params.quadCoeffDiv:=
  Int.ediv_le_ediv (by decide) (by nlinarith)
 unfold memoryFee Params.memoryGas at *
 omega

lemma memoryFee_injective(hv:0≤v)(hw:0≤w)(h:memoryFee v=memoryFee w):v=w:=by
 rcases lt_trichotomy v w with hlt|heq|hlt
 ·exact absurd h (memoryFee_strictMono hv hlt).ne
 ·exact heq
 exact absurd h (memoryFee_strictMono hw hlt).ne'

lemma resized_iff{b:Bill}:b.Resizable↔
 max (b.len:ℤ) (uint64 (rounded b.size))=max (b.len:ℤ) (rounded b.size):=by
 unfold Bill.Resizable uint64
 omega

lemma dvd_rounded{n:ℕ}{size:ℤ}(h:32∣n):(32:ℤ)∣max (n:ℤ) (rounded size):=by
 unfold rounded toWordSize
 split<;>omega

/-- The fee for `n'` bytes of memory has been paid exactly when they are what was billed. -/
lemma balanced_iff{n n':ℕ}{b:Bill}(hn:32∣n)(hb:Charged n b n'):
 32∣n'∧b.fee+lengthFee n=lengthFee n'↔b.Resizable:=by
 obtain⟨rfl,hfee,hsize⟩:=hb
 have hdvd:(32:ℤ)∣max (b.len:ℤ) (rounded b.size):=dvd_rounded hn
 have hcast:(n':ℤ)=max (b.len:ℤ) (uint64 (rounded b.size)):=by
  rw[hsize]
  omega
 rw[resized_iff,←hcast,hfee,sub_add_cancel]
 have hk:0 ≤ max (b.len:ℤ) (rounded b.size):=le_max_of_le_left (Int.natCast_nonneg _)
 generalize max (b.len:ℤ) (rounded b.size)=k at *
 constructor
 ·rintro⟨hdvd',hlen⟩
  have hwords:toWordSize k=toWordSize n':=
   memoryFee_injective (toWordSize_nonneg hk) (toWordSize_nonneg (Int.natCast_nonneg n')) hlen
  unfold toWordSize at hwords
  omega
 intro h
 exact⟨by omega,by rw[h]⟩

/-- What a move does to the bills and the length of the memory. -/
def Follows (u v:Machine):Prop:=
 (v.bills=u.bills ∧ v.frame.mem.length=u.frame.mem.length) ∨
  ∃b,v.bills=b::u.bills ∧ Charged u.frame.mem.length b v.frame.mem.length

variable {h:Handler Query.Answer σ} {env:Environment} {con:Contract} {g:ℤ}

lemma step_follows(u:Machine):
 (step env con u).Safe True (fun _=>True) (fun _ _=>True) (fun r=>∀v,r=.inl v→Follows u v):=by
 obtain⟨pc,f,paid,bills⟩:=u
 cases paid with
 | true=>
  have hexec:Keeps (memoryLength f.mem.length) Any (execOp env con (getOp con.code pc) pc):=
   keeps_execOp env con (fun _ hw=>hw) pc
  have hloop:(loopStep (execOp env con (getOp con.code pc)) (pc,f)).Safe True (fun _=>True)
   (fun _ _=>True) (fun r=>∀v,r=.inl v→v.2.mem.length=f.mem.length):=by
   refine (hexec f (holds_memoryLength f)).bind ?_
   rintro (e|⟨pc'|ret,f'⟩) hf v hv
   ·cases hv
   ·cases hv
    exact hf.2.2
   cases hv
  refine hloop.bind ?_
  rintro (v|b) hv w hw
  ·cases hw
   exact .inl ⟨rfl,hv v rfl⟩
  cases hw
 | false=>
  refine (pay_charges con (getOp con.code pc) f).bind ?_
  rintro (e|⟨b,f'⟩) hb v hv
  ·cases hv
  cases hv
  exact .inr ⟨b,rfl,hb b f' rfl⟩

lemma follows_of_moves(hm:Moves h (step env con) u v):Follows u.1 v.1:=by
 have hstep:True∧∀w,(.inl v.1:Machine ⊕ Halted)=.inl w→Follows u.1 w:=
  (step_follows u.1).keeps (fun _ _ _ _ _ _ _=>⟨trivial,trivial⟩) trivial hm
 exact hstep.2 v.1 rfl

lemma balanced_iff_lengthFee(u:Machine):Balanced u↔
 32∣u.frame.mem.length∧(u.bills.map Bill.fee).sum=lengthFee u.frame.mem.length:=by
 have hfee (h:32∣u.frame.mem.length):lengthFee u.frame.mem.length =
  3*(u.frame.mem.length/32:ℕ)+(u.frame.mem.length/32:ℕ)^2/512:=by
  have hwords:toWordSize u.frame.mem.length=(u.frame.mem.length/32:ℕ):=by
   unfold toWordSize
   omega
  rw[lengthFee,hwords,memoryFee,mul_comm]
  rfl
 constructor
 ·exact fun hu=>⟨hu.whole,hu.fees.trans (hfee hu.whole).symm⟩
 exact fun hu=>⟨hu.1,hu.2.trans (hfee hu.1)⟩

lemma balanced_start:Balanced (.start g):=
 (balanced_iff_lengthFee _).2 ⟨dvd_zero _,by simp[Machine.start,Frame.init,lengthFee,toWordSize,memoryFee]⟩

lemma balanced_of_bill(hb:v.bills=b::u.bills)
 (hc:Charged u.frame.mem.length b v.frame.mem.length)(hu:Balanced u):
 Balanced v↔b.Resizable:=by
 rw[balanced_iff_lengthFee]at hu ⊢
 rw[hb,map_cons,sum_cons,hu.2]
 exact balanced_iff hu.1 hc

/-- In every state of a run the fees are those for the memory exactly when all sizes that were
billed could be resized to. -/
theorem memory_fees_exact_iff (h : Handler Query.Answer σ) (env : Environment) (con : Contract)
    (g : ℤ) (y : σ) :
    (∀ u, Reached h env con g y u → Balanced u.1) ↔
      ∀ u, Reached h env con g y u → ∀ b ∈ u.1.bills, b.Resizable := by
 constructor
 · intro hbal u hu
   induction hu with
   | refl=>simp[Machine.start]
   | tail hu hm ih =>
    rcases follows_of_moves hm with ⟨hbills,-⟩|⟨b,hbills,hc⟩
    · rwa[hbills]
    rw[hbills,forall_mem_cons]
    exact⟨(balanced_of_bill hbills hc (hbal _ hu)).1 (hbal _ (hu.tail hm)),ih⟩
 intro hres u hu
 induction hu with
 | refl=>exact balanced_start
 | tail hu hm ih =>
  have hall:=hres _ (hu.tail hm)
  rcases follows_of_moves hm with ⟨hbills,hlen⟩|⟨b,hbills,hc⟩
  · rw[balanced_iff_lengthFee] at ih ⊢
    rwa[hbills,hlen]
  refine (balanced_of_bill hbills hc ih).2 (hall b ?_)
  rw[hbills]
  exact mem_cons_self

/-- PUSH9 `2 ^ 64` and MLOAD. -/
def farLoad:Contract:=codeOnly [0x68,1,0,0,0,0,0,0,0,0,0x51]

/-- The price of `2 ^ 59 + 1` words is paid for a memory of one word. -/
theorem memory_fees_truncated :
    ¬ ∀ u, Reached silent plainEnvironment farLoad (2 ^ 120) () u → Balanced u.1 := by
 intro hbal
 have hpay:Moves silent (step plainEnvironment farLoad) (.start (2^120),())
  (⟨0,⟨[],[],2^120-3⟩,true,[⟨0,0,0⟩]⟩,()):=rfl
 have hpush:Moves silent (step plainEnvironment farLoad) (⟨0,⟨[],[],2^120-3⟩,true,[⟨0,0,0⟩]⟩,())
  (⟨10,⟨[2^64],[],2^120-3⟩,false,[⟨0,0,0⟩]⟩,()):=rfl
 have hload:Moves silent (step plainEnvironment farLoad)
  (⟨10,⟨[2^64],[],2^120-3⟩,false,[⟨0,0,0⟩]⟩,())
  (⟨10,⟨[2^64],List.replicate 32 0,2^120-6-memoryFee (2^59+1)⟩,true,
   [⟨0,2^64+32,memoryFee (2^59+1)⟩,⟨0,0,0⟩]⟩,()):=rfl
 have hfees:=(hbal _ (((ReflTransGen.single hpay).tail hpush).tail hload)).fees
 exact absurd hfees (by decide)

end GoCoupe.EvmMemoryFees
