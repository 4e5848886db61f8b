import GoCoupe.EvmByteCodeLoop

/-!
# Invariants of the frame of a contract

A condition on stack items, memory length and gas is kept by every instruction if it is kept by
pushing words, using gas and taking back the gas that calls return. Only instructions that push
an amount from outside may push more than a word.
-/

namespace GoCoupe.EvmFrameInvariants

open EvmMachine EvmOpCodes EvmInstructions EvmGas EvmByteCodeLoop BigIntegerWords List

def IsWord (x:ℤ):Prop:=0≤x ∧ x<2^256

/-- `answers` is what the surroundings may answer, `words` says that the items of the stack are
words, and `size` holds of the length of the memory and the gas. -/
structure FrameInvariant where
 answers:(q:Query) → q.Answer→Prop
 words:Prop
 size:ℕ→ℤ→Prop
 used:∀n g x,x≤g→size n g→size n (g-x)
 called:∀kind me addr data gas price value (r:CallResult),
  answers (.call kind me addr data gas price value) r→∀n g,size n g→size n (g+r.gas)
 created:∀me data gas price value (r:CallResult),
  answers (.create me data gas price value) r→∀n g,size n g→size n (g+r.gas)

variable (R:FrameInvariant)

def FrameInvariant.Item (x:ℤ):Prop:=R.words→IsWord x

def FrameInvariant.Holds (f:Frame):Prop:=(∀x∈f.stack,R.Item x) ∧ R.size f.mem.length f.gas

/-- A value that satisfies `V`, in a frame that satisfies the invariant, or an error. -/
def FrameInvariant.After {α:Type} (V:α→Prop):Except VmError (α × Frame)→Prop
 | .ok (a,f)=>V a ∧ R.Holds f
 | .error _=>True

/-- The computation keeps the invariant and returns a value that satisfies `V`. -/
def Keeps {α:Type} (V:α→Prop) (m:Vm α):Prop:=
 ∀f,R.Holds f→(m f).Safe True (fun _=>True) R.answers (R.After V)

/-- Any value. -/
abbrev Any {α:Type}:α→Prop:=fun _=>True

variable {R}

section Rules

variable {α β:Type} {V:α→Prop} {W:β→Prop}

lemma keeps_pure(h:V a):Keeps R V (pure a:Vm α):=fun _ hf=>⟨h,hf⟩

@[grind ←] lemma keeps_done(a:α):Keeps R Any (pure a:Vm α):=keeps_pure trivial

lemma keeps_bind(hm:Keeps R V m)(hk:∀a,V a→Keeps R W (k a)):Keeps R W (m>>=k):=by
 intro f hf
 refine (hm f hf).bind ?_
 rintro (e|⟨a,f'⟩) h
 ·trivial
 exact hk a h.1 f' h.2

lemma Keeps.any(hm:Keeps R V m):Keeps R Any m:=by
 refine fun f hf=>(hm f hf).mono ?_
 rintro (e|⟨a,f'⟩) h
 ·trivial
 exact⟨trivial,h.2⟩

@[grind ←] lemma keeps_then(hm:Keeps R Any m)(hk:∀a,Keeps R W (k a)):Keeps R W (m>>=k):=keeps_bind hm fun a _=>hk a

lemma keeps_ite [Decidable p](hm:Keeps R V m)(hm':Keeps R V m'):Keeps R V (if p then m else m'):=by
 split<;>assumption

@[grind ←] lemma keeps_throw(e:VmError):Keeps R V (Vm.throw e:Vm α):=fun _ _=>trivial

@[grind ←] lemma keeps_ask(q:Query):Keeps R Any (Vm.ask q):=
 fun _ hf=>⟨trivial,fun _ _=>⟨trivial,hf⟩⟩

@[grind ←] lemma keeps_get:Keeps R Any Vm.get:=fun _ hf=>⟨trivial,hf⟩

lemma keeps_some(o:Option α):Keeps R (o=some ·) (Vm.ofOption o):=by
 cases o with
 | none=>exact fun _ _=>trivial
 | some a=>exact keeps_pure rfl

@[grind ←] lemma keeps_ofOption(o:Option α):Keeps R Any (Vm.ofOption o):=(keeps_some o).any

@[grind ←] lemma keeps_push(hx:R.Item x):Keeps R Any (push x):=by
 rintro⟨s,m,g⟩ hf
 exact⟨trivial,forall_mem_cons.2 ⟨hx,hf.1⟩,hf.2⟩

lemma keeps_item:Keeps R R.Item pop:=by
 rintro⟨s,m,g⟩ hf
 cases s with
 | nil=>trivial
 | cons x s=>
  have hs:=forall_mem_cons.1 hf.1
  exact⟨hs.1,hs.2,hf.2⟩

@[grind ←] lemma keeps_pop:Keeps R Any pop:=keeps_item.any

lemma keeps_nth(n:ℕ):Keeps R R.Item (back n):=by
 rintro⟨s,m,g⟩ hf
 cases n with
 | zero=>trivial
 | succ n=>
  rw[back_apply]
  cases hx:s[n]? with
  | none=>trivial
  | some x=>exact⟨hf.1 x (mem_of_getElem? hx),hf⟩

@[grind ←] lemma keeps_back(n:ℕ):Keeps R Any (back n):=(keeps_nth n).any

@[grind ←] lemma keeps_peek:Keeps R Any peek:=keeps_back 1

@[grind ←] lemma keeps_dup(n:ℕ):Keeps R Any (dup n):=keeps_bind (keeps_nth n) fun _=>keeps_push

@[grind ←] lemma keeps_swap(n:ℕ):Keeps R Any (swap n):=by
 refine keeps_bind (keeps_nth n) fun x hx=>keeps_bind (keeps_nth 1) fun y hy=>?_
 rintro⟨s,m,g⟩ hf
 refine⟨trivial,fun z hz=>?_,hf.2⟩
 obtain hz|rfl:=mem_or_eq_of_mem_set hz
 ·obtain hz|rfl:=mem_or_eq_of_mem_set hz
  ·exact hf.1 z hz
  exact hy
 exact hx

@[grind ←] lemma keeps_require(n:ℕ):Keeps R Any (require n):=by
 unfold require
 grind

@[grind ←] lemma keeps_useGas(amount:ℤ):Keeps R Any (useGas amount):=by
 rintro⟨s,m,g⟩ hf
 rw[useGas_apply]
 split
 ·exact⟨trivial,hf⟩
 exact⟨trivial,hf.1,R.used _ _ _ (not_lt.1 ‹_›) hf.2⟩

lemma keeps_memory(o n:ℤ):Keeps R (fun b=>∃mem,EvmMemory.get mem o n=some b) (memoryGet o n):=by
 refine keeps_bind keeps_get fun f _ g hg=>?_
 have h:=keeps_some (EvmMemory.get f.mem o n) g hg
 exact h.mono fun r hr=>by
  cases r with
  | error e=>trivial
  | ok r=>exact⟨⟨f.mem,hr.1⟩,hr.2⟩

@[grind ←] lemma keeps_memoryGet(o n:ℤ):Keeps R Any (memoryGet o n):=(keeps_memory o n).any

@[grind ←] lemma keeps_memoryGetPtr(o n:ℤ):Keeps R Any (memoryGetPtr o n):=by
 unfold memoryGetPtr
 grind

/-- An assignment to a part of the memory leaves its length. -/
lemma keeps_memoryAssign(h:∀mem mem',assign mem=some mem'→mem'.length=mem.length):
 Keeps R Any (memoryAssign assign):=by
 rintro⟨s,m,g⟩ hf
 have hrun:memoryAssign assign ⟨s,m,g⟩ =
  (Vm.ofOption (assign m)>>=fun mem=>Vm.set ⟨s,mem,g⟩) ⟨s,m,g⟩:=rfl
 rw[hrun]
 cases hm:assign m with
 | none=>trivial
 | some mem=>exact⟨trivial,hf.1,(h m mem hm).symm▸hf.2⟩

@[grind ←] lemma keeps_memorySet(o n:ℕ)(v:Bytes):Keeps R Any (memorySet o n v):=
 keeps_memoryAssign fun _ _=>EvmMemory.set_length

@[grind ←] lemma keeps_memorySetByte(o:ℤ)(b:UInt8):Keeps R Any (memorySetByte o b):=
 keeps_memoryAssign fun _ _=>EvmMemory.setByte_length

lemma keeps_memoryResize(h:∀n n' g,R.size n g→R.size n' g)(n:ℕ):
 Keeps R Any (memoryResize n):=fun _ hf=>⟨trivial,hf.1,h _ _ _ hf.2⟩

/-- Giving back what an answer hands back. -/
lemma keeps_handBack{q:Query}{gas:q.Answer→ℤ}{k:q.Answer→Vm β}
 (hgas:∀r,R.answers q r→∀n g,R.size n g→R.size n (g+gas r))(hk:∀r,Keeps R W (k r)):
 Keeps R W (do
  let r ← Vm.ask q
  returnGas (gas r)
  k r):=
 fun _ hf=>⟨trivial,fun r hr=>hk r _ ⟨hf.1,hgas r hr _ _ hf.2⟩⟩

end Rules

section Items

@[grind ←] lemma item_of_isWord(h:IsWord x):R.Item x:=fun _=>h

@[grind ←] lemma isWord_u256(x:ℤ):IsWord (u256 x):=⟨u256_nonneg x,Int.emod_lt_of_pos _ (by norm_num)⟩

@[grind ←] lemma isWord_zero:IsWord 0:=⟨le_rfl,by norm_num⟩

lemma isWord_ite [Decidable p](hx:IsWord x)(hy:IsWord y):IsWord (if p then x else y):=by
 split<;>assumption

@[grind ←] lemma isWord_flag(b:Bool):IsWord (flag b):=isWord_ite ⟨zero_le_one,by norm_num⟩ isWord_zero

@[grind ←] lemma isWord_hash(h:Hash):IsWord (hashToBig h):=by
 have:=h.isLt
 unfold IsWord hashToBig
 omega

@[grind ←] lemma isWord_address(a:Address):IsWord (addressToBig a):=by
 have:=a.isLt
 unfold IsWord addressToBig
 omega

lemma isWord_bytes(h:b.length≤32):IsWord (bytesToBig b):=by
 have hlt:=BigEndianBytes.value_lt b
 have hpow:256^b.length≤256^32:=Nat.pow_le_pow_right (by norm_num) h
 unfold IsWord bytesToBig
 omega

lemma toNat_lt_of_isWord(h:IsWord x):∃n:ℕ,x=n∧n<2^256:=
 ⟨x.toNat,by have:=h.1;omega,by have:=h.2;omega⟩

lemma isWord_natCast{n:ℕ}(h:n<2^256):IsWord n:=⟨Int.natCast_nonneg n,by omega⟩

variable {x y:ℤ} (hx:IsWord x) (hy:IsWord y)

include hx hy

lemma isWord_land:IsWord (Int.land x y):=by
 obtain⟨m,rfl,hm⟩:=toNat_lt_of_isWord hx
 obtain⟨n,rfl,hn⟩:=toNat_lt_of_isWord hy
 exact isWord_natCast (Nat.and_lt_two_pow m hn)

lemma isWord_lor:IsWord (Int.lor x y):=by
 obtain⟨m,rfl,hm⟩:=toNat_lt_of_isWord hx
 obtain⟨n,rfl,hn⟩:=toNat_lt_of_isWord hy
 exact isWord_natCast (Nat.or_lt_two_pow hm hn)

lemma isWord_xor:IsWord (Int.xor x y):=by
 obtain⟨m,rfl,hm⟩:=toNat_lt_of_isWord hx
 obtain⟨n,rfl,hn⟩:=toNat_lt_of_isWord hy
 exact isWord_natCast (Nat.xor_lt_two_pow hm hn)

end Items

lemma getData_length{data:Bytes}{start:ℤ}{n:ℕ}(h0:0 ≤ start)(hn:n≤32):
 (getData data start n).length≤32:=by
 unfold getData rightPadBytes
 have hsize:int64 (uint64 n)=n:=by
  unfold int64 uint64
  omega
 have hcut:uint64 (min (min start data.length+n) data.length)≤uint64 (min start data.length)+n:=by
  unfold uint64
  omega
 dsimp only
 rw[hsize]
 split<;>simp<;>omega

lemma get_length(h:EvmMemory.get mem o 32=some b):b.length≤32:=by
 have hwrap (h0:0≤o):int64 (o+32)≤o+32:=by
  unfold int64
  omega
 rw[EvmMemory.get,if_neg (by decide)]at h
 unfold EvmMemory.slice at h
 split_ifs at h with _ _ hslice
 ·obtain rfl:=Option.some.inj h
  have:=hwrap hslice.1
  simp
  omega
 obtain rfl:=Option.some.inj h
 simp

section Instructions

variable (env:Environment) (con:Contract)

@[grind ←] lemma keeps_popTopics(n:ℕ):Keeps R Any (popTopics n):=by
 induction n with
 | zero=>exact keeps_done _
 | succ n ih=>
  unfold popTopics
  grind

lemma keeps_opCreate:Keeps R Any (opCreate con):=by
 refine keeps_then keeps_pop fun _=>keeps_then keeps_pop fun _=>keeps_then keeps_pop fun _=>?_
 refine keeps_then (keeps_memoryGet _ _) fun _=>keeps_then keeps_get fun _=>?_
 refine keeps_then (keeps_useGas _) fun _=>keeps_handBack (R.created _ _ _ _ _) fun r=>?_
 grind

lemma keeps_callWith(kind:CallKind):Keeps R Any (callWith kind con):=by
 refine keeps_then keeps_pop fun _=>keeps_then keeps_pop fun _=>keeps_then keeps_pop fun _=>?_
 refine keeps_then keeps_pop fun _=>keeps_then keeps_pop fun _=>keeps_then keeps_pop fun _=>?_
 refine keeps_then keeps_pop fun _=>keeps_then (keeps_memoryGet _ _) fun _=>?_
 refine keeps_handBack (R.called _ _ _ _ _ _ _) fun r=>?_
 have hone:IsWord 1:=isWord_flag true
 grind

@[grind ←] lemma keeps_jump(dest:ℤ):Keeps R Any (jump con dest):=by
 unfold jump
 grind

lemma keeps_unary(h:∀x,R.Item x→R.Item (g x)):Keeps R Any (unary g):=
 keeps_bind keeps_item fun x hx=>keeps_push (h x hx)

lemma keeps_binary(h:∀x y,R.Item x→R.Item y→R.Item (g x y)):Keeps R Any (binary g):=
 keeps_bind keeps_item fun x hx=>keeps_bind keeps_item fun y hy=>keeps_push (h x y hx hy)

lemma keeps_ternary(h:∀x y z,IsWord (g x y z)):Keeps R Any (ternary g):=by
 unfold ternary
 grind

lemma keeps_opByte:Keeps R Any opByte:=by
 refine keeps_then keeps_pop fun _=>keeps_then keeps_pop fun _=>keeps_ite ?_ (by grind)
 refine keeps_then (keeps_ofOption _) fun b=>keeps_push (item_of_isWord ?_)
 exact isWord_natCast (b.toNat_lt.trans (by norm_num))

lemma keeps_opMload:Keeps R Any opMload:=by
 refine keeps_then keeps_pop fun _=>keeps_bind (keeps_memory _ _) fun b hb=>?_
 obtain⟨mem,hmem⟩:=hb
 exact keeps_push fun _=>isWord_bytes (get_length hmem)

lemma keeps_turn(h:Keeps R Any body):
 Keeps R Any (do return (.inl ((← plain body none pc)+1):ℕ ⊕ Bytes)):=
 keeps_then (keeps_then h fun _=>keeps_done _) fun _=>keeps_done _

/-- The instructions that push an amount from outside. -/
def Outside:OpCode→Prop
 | .BALANCE | .CALLVALUE | .CALLDATASIZE | .CODESIZE | .EXTCODESIZE | .GASPRICE | .PC | .MSIZE
 | .GAS=>True
 | _=>False

lemma keeps_execOp{op:OpCode}(hop:Outside op→¬R.words)(pc:ℕ):Keeps R Any (execOp env con op pc):=by
 have hout:Outside op→∀x,R.Item x:=fun h x hw=>absurd hw (hop h)
 cases op with
 | STOP=>exact keeps_done _
 | ADDMOD | MULMOD=>exact keeps_turn (keeps_ternary fun _ _ _=>by grind)
 | SIGNEXTEND=>exact keeps_turn (by unfold opSignExtend;grind)
 | ISZERO | NOT=>exact keeps_turn (keeps_unary fun _ _=>by grind)
 | CALLDATALOAD=>
  exact keeps_turn (keeps_unary fun _ hx hw=>isWord_bytes (getData_length (hx hw).1 le_rfl))
 | BLOCKHASH=>exact keeps_turn (keeps_unary fun _ _ _=>by grind)
 | BYTE=>exact keeps_turn keeps_opByte
 | SHA3=>exact keeps_turn (by unfold opSha3;grind)
 | ADDRESS | ORIGIN | CALLER | COINBASE | TIMESTAMP | NUMBER | DIFFICULTY | GASLIMIT=>
  exact keeps_turn (keeps_push (by grind))
 | CALLVALUE | CALLDATASIZE | CODESIZE | GASPRICE=>exact keeps_turn (keeps_push (hout trivial _))
 | BALANCE=>exact keeps_turn (by unfold opBalance;grind[hout trivial])
 | EXTCODESIZE=>exact keeps_turn (by unfold opExtCodeSize;grind[hout trivial])
 | CALLDATACOPY=>exact keeps_turn (by unfold opCalldataCopy copyData;grind)
 | CODECOPY=>exact keeps_turn (by unfold opCodeCopy copyData;grind)
 | EXTCODECOPY=>exact keeps_turn (by unfold opExtCodeCopy copyData;grind)
 | POP=>exact keeps_turn (by unfold opPop;grind)
 | MLOAD=>exact keeps_turn keeps_opMload
 | MSTORE=>exact keeps_turn (by unfold opMstore;grind)
 | MSTORE8=>exact keeps_turn (by unfold opMstore8;grind)
 | SLOAD=>exact keeps_turn (by unfold opSload;grind)
 | SSTORE=>exact keeps_turn (by unfold opSstore;grind)
 | JUMP=>exact keeps_then keeps_pop fun _=>by grind
 | JUMPI=>exact keeps_then keeps_pop fun _=>by grind
 | PC=>exact keeps_then (by unfold opPc deref;grind[hout trivial]) fun _=>keeps_done _
 | MSIZE=>exact keeps_turn (by unfold opMsize;grind[hout trivial])
 | GAS=>exact keeps_turn (by unfold opGas;grind[hout trivial])
 | JUMPDEST=>exact keeps_turn (keeps_done _)
 | PUSH n=>
  have hword:IsWord (bytesToBig (getData con.code (pc+1) (n+1:ℕ))):=
   isWord_bytes (getData_length (by omega) n.isLt)
  exact keeps_then (keeps_then (keeps_push fun _=>hword) fun _=>keeps_done _)
   fun _=>keeps_done _
 | DUP n=>exact keeps_turn (keeps_dup _)
 | SWAP n=>exact keeps_turn (keeps_swap _)
 | LOG n=>exact keeps_turn (by unfold logTopics;grind)
 | CREATE=>exact keeps_turn (keeps_opCreate con)
 | CALL | CALLCODE=>exact keeps_turn (keeps_callWith con _)
 | RETURN=>exact keeps_then keeps_pop fun _=>by grind
 | SUICIDE=>exact keeps_then (by unfold opSuicide;grind) fun _=>keeps_done _
 | invalid b=>exact keeps_throw _
 | ADD | SUB | MUL | EXP | LT | GT | SLT | SGT | EQ=>
  exact keeps_turn (keeps_binary fun _ _ _ _=>by grind)
 | DIV | SDIV | MOD | SMOD=>
  exact keeps_turn (keeps_binary fun _ _ _ _ _=>by grind)
 | AND=>exact keeps_turn (keeps_binary fun _ _ hx hy hw=>isWord_land (hx hw) (hy hw))
 | OR=>exact keeps_turn (keeps_binary fun _ _ hx hy hw=>isWord_lor (hx hw) (hy hw))
 | XOR=>exact keeps_turn (keeps_binary fun _ _ hx hy hw=>isWord_xor (hx hw) (hy hw))

end Instructions

variable (con:Contract)

@[grind ←] lemma keeps_baseCheck(op:OpCode):Keeps R Any (baseCheck op):=by
 unfold baseCheck
 split
 ·refine keeps_then (keeps_then (keeps_require _) fun _=>keeps_then keeps_get fun _=>?_)
   fun _=>keeps_done _
  exact keeps_ite (keeps_throw _) (keeps_done _)
 exact keeps_done _

@[grind ←] lemma keeps_newAccountGas(op:OpCode)(gas:ℤ):
 Keeps R Any (newAccountGas op gas):=by
 refine keeps_ite ?_ (keeps_done _)
 exact keeps_then (keeps_back _) fun _=>keeps_then (keeps_ask _) fun _=>keeps_done _

lemma keeps_callGasAndSize(op:OpCode)(gas:ℤ):Keeps R Any (callGasAndSize op gas):=by
 unfold callGasAndSize
 grind

@[grind ←] lemma keeps_opGasAndSize(op:OpCode)(gas:ℤ):
 Keeps R Any (opGasAndSize con op gas):=by
 cases op with
 | CALL | CALLCODE=>exact keeps_callGasAndSize _ _
 | SSTORE=>
  refine keeps_then (keeps_require _) fun _=>keeps_then (keeps_back _) fun _=>?_
  refine keeps_then (keeps_back _) fun _=>keeps_then (keeps_ask _) fun _=>?_
  refine keeps_ite (keeps_done _) (keeps_ite ?_ (keeps_done _))
  exact keeps_then (keeps_ask _) fun _=>keeps_done _
 | SUICIDE=>
  refine keeps_then (keeps_ask _) fun _=>keeps_ite ?_ (keeps_done _)
  exact keeps_then (keeps_ask _) fun _=>keeps_done _
 | _=>
  unfold opGasAndSize
  grind

/-- Paying keeps an invariant that is not about the length of the memory. -/
lemma keeps_prepare(hsize:∀n n' g,R.size n g→R.size n' g)(op:OpCode):
 Keeps R Any (prepare (calculateGasAndSize con op)):=by
 unfold prepare calculateGasAndSize gasAndSize
 have hresize:=keeps_memoryResize hsize
 grind

lemma keeps_byteStep(hsize:∀n n' g,R.size n g→R.size n' g)(env:Environment)
 (hop:Outside (getOp con.code pc)→¬R.words):Keeps R Any (byteStep env con pc):=
 keeps_then (keeps_prepare con hsize _) fun _=>keeps_execOp env con hop pc

end GoCoupe.EvmFrameInvariants
