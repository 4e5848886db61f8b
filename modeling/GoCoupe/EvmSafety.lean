import GoCoupe.EvmByteCodeLoop

/-!
# What an instruction may do once it is paid for

The surroundings answer no negative balances and hand back at most the gas they were given; a
contract passes on no more gas than it started with. An instruction that finds its operands
keeps the stack free of negative numbers and the memory at its length. Memory access may only
crash when `c` allows it or the range is not in the memory.
-/

namespace GoCoupe.EvmSafety

open InteractionPrograms EvmMachine EvmMemory BigIntegerWords

/-- What the code of `self` may ask, having started with the gas `G`. -/
def Asks (self:Address) (G:ℤ):Query→Prop
 | .call _ me _ _ gas price value=>me=self ∧ 0≤gas ∧ gas≤G ∧ 0≤price ∧ 0≤value
 | .create me _ gas price value=>me=self ∧ 0≤gas ∧ gas≤G ∧ 0≤price ∧ 0≤value
 | .addRefund gas=>0≤gas
 | .addBalance _ amount=>0≤amount
 | _=>True

def Answered:(q:Query) → q.Answer→Prop
 | .getBalance _,(balance:ℤ)=>0≤balance
 | .call _ _ _ _ gas _ _,(r:CallResult)=>0≤r.gas ∧ r.gas≤gas
 | .create _ _ gas _ _,(r:CallResult)=>0≤r.gas ∧ r.gas≤gas
 | _,_=>True

/-- A condition on the outcome that an error meets. -/
def unlessError {α:Type} (post:α→Frame→Prop):Except VmError (α × Frame)→Prop
 | .ok (a,f)=>post a f
 | .error _=>True

variable (c:Prop) (self:Address) (G:ℤ) {α β:Type}

def Ensures (m:Vm α) (f:Frame) (post:α→Frame→Prop):Prop:=
 (m f).Safe c (Asks self G) Answered (unlessError post)

variable {c self G} {m:Vm α} {f:Frame} {post:α→Frame→Prop}

lemma ensures_of_done(h:m f=.done (.ok (a,f')))(hp:post a f'):Ensures c self G m f post:=by
 rw[Ensures,h]
 exact hp

lemma ensures_throw(e:VmError):Ensures c self G (Vm.throw e) f post:=True.intro

lemma ensures_pure(h:post a f):Ensures c self G (pure a) f post:=h

variable {k:α→Vm β} {post':β→Frame→Prop}

lemma ensures_bind(h:Ensures c self G m f post)(hk:∀a f',post a f'→Ensures c self G (k a) f' post'):
 Ensures c self G (m>>=k) f post':=by
 refine Prog.Safe.bind h ?_
 rintro (e|⟨a,f'⟩) hp
 ·trivial
 exact hk a f' hp

lemma ensures_mono{post':α→Frame→Prop}(h:Ensures c self G m f post)
 (hp:∀a f',post a f'→post' a f'):Ensures c self G m f post':=by
 refine Prog.Safe.mono h ?_
 rintro (e|⟨a,f'⟩) ha
 ·trivial
 exact hp a f' ha

lemma ensures_and{post':α→Frame→Prop}(h:Ensures c self G m f post)
 (h':Ensures c self G m f post'):Ensures c self G m f (fun a f'=>post a f'∧post' a f'):=by
 refine Prog.Safe.mono (Prog.Safe.and h h') ?_
 rintro (e|⟨a,f'⟩) hp
 ·trivial
 exact hp

lemma ensures_step(h:m f=.done (.ok (a,f')))
 (hk:Ensures c self G (k a) f' post'):Ensures c self G (m>>=k) f post':=by
 rw[Ensures,Vm.bind_apply,h]
 exact hk

lemma ensures_ask_bind{k:q.Answer→Vm β}{post:β→Frame→Prop}
 (hq:Asks self G q)(hk:∀r,Answered q r→Ensures c self G (k r) f post):
 Ensures c self G (Vm.ask q>>=k) f post:=
 ⟨hq,hk⟩

def Nonneg (s:List ℤ):Prop:=∀x∈s,0≤x

@[simp] lemma nonneg_nil:Nonneg []:=by simp[Nonneg]

variable {s:List ℤ}

@[simp] lemma nonneg_cons:Nonneg (x::s)↔0≤x∧Nonneg s:=by
 simp[Nonneg]

lemma one_of_length(h:1 ≤ s.length):∃x t,s=x::t:=by
 cases s with
 | nil=>simp at h
 | cons x t=>exact⟨x,t,rfl⟩

lemma two_of_length(h:2 ≤ s.length):∃x y t,s=x::y::t:=by
 obtain⟨x,s,rfl⟩:=one_of_length (by omega:1 ≤ s.length)
 obtain⟨y,s,rfl⟩:=one_of_length (by simpa using h:1 ≤ s.length)
 exact⟨x,y,s,rfl⟩

lemma three_of_length(h:3 ≤ s.length):∃x y z t,s=x::y::z::t:=by
 obtain⟨x,s,rfl⟩:=one_of_length (by omega:1 ≤ s.length)
 obtain⟨y,z,s,rfl⟩:=two_of_length (by simpa using h:2 ≤ s.length)
 exact⟨x,y,z,s,rfl⟩

lemma four_of_length(h:4 ≤ s.length):∃x y z w t,s=x::y::z::w::t:=by
 obtain⟨x,s,rfl⟩:=one_of_length (by omega:1 ≤ s.length)
 obtain⟨y,z,w,s,rfl⟩:=three_of_length (by simpa using h:3 ≤ s.length)
 exact⟨x,y,z,w,s,rfl⟩

lemma seven_of_length(h:7 ≤ s.length):∃a b c x y x' y' t,s=a::b::c::x::y::x'::y'::t:=by
 obtain⟨a,b,c,s,rfl⟩:=three_of_length (by omega:3 ≤ s.length)
 obtain⟨x,y,x',y',s,rfl⟩:=four_of_length (by simpa using h:4 ≤ s.length)
 exact⟨a,b,c,x,y,x',y',s,rfl⟩

/-- Unless `c` allows a crash, the range is in the memory and the memory is not too long. -/
def Covered (c:Prop) (m:Bytes) (off len:ℤ):Prop:=¬c→Within m off len ∧ m.length<2^63

variable {c:Prop} {self:Address} {G:ℤ} {m:Bytes} {g:ℤ}

lemma ensures_ofOption(hc:¬c → o.isSome)(hp:∀a,o=some a→post a f):
 Ensures c self G (Vm.ofOption o) f post:=by
 cases o with
 | some a=>exact hp a rfl
 | none=>
  by_contra hn
  exact absurd (hc hn) (by simp)

variable {len off:ℤ}

lemma memoryGet_ensures(hl:int64 len=size)(h:Covered c m off len):
 Ensures c self G (memoryGet (int64 off) size) ⟨s,m,g⟩ (fun _ f'=>f'=⟨s,m,g⟩):=by
 subst hl
 exact ensures_step rfl (ensures_ofOption (fun hc=>(h hc).1.get_isSome (h hc).2) fun _ _=>rfl)

lemma memoryGetPtr_ensures(h:Covered c m off len):
 Ensures c self G (memoryGetPtr (int64 off) (int64 len)) ⟨s,m,g⟩ (fun _ f'=>f'=⟨s,m,g⟩):=
 ensures_step rfl <| ensures_ofOption (fun hc=>(h hc).1.getPtr_isSome (h hc).2) fun _ _=>rfl

lemma memoryAssign_ensures(hc:¬c→(assign m).isSome)(hl:∀m',assign m=some m'→m'.length=m.length):
 Ensures c self G (memoryAssign assign) ⟨s,m,g⟩
  (fun _ f'=>f'.stack=s∧f'.mem.length=m.length∧f'.gas=g):=by
 have hm:Ensures c self G (Vm.ofOption (assign m)) ⟨s,m,g⟩ (fun m' _=>assign m=some m'):=
  ensures_ofOption hc fun _ hm'=>hm'
 refine ensures_step rfl (ensures_bind hm ?_)
 intro m' f' hm'
 exact⟨rfl,hl m' hm',rfl⟩

lemma memorySet_ensures(hl:uint64 len=size)(h:Covered c m off len):
 Ensures c self G (memorySet (uint64 off) size value) ⟨s,m,g⟩
  (fun _ f'=>f'.stack=s∧f'.mem.length=m.length∧f'.gas=g):=by
 subst hl
 exact memoryAssign_ensures (fun hc=>(h hc).1.set_isSome (h hc).2 value) fun _=>set_length

lemma memorySetByte_ensures(h:Covered c m off 1):
 Ensures c self G (memorySetByte (int64 off) b) ⟨s,m,g⟩
  (fun _ f'=>f'.stack=s∧f'.mem.length=m.length∧f'.gas=g):=
 memoryAssign_ensures (fun hc=>(h hc).1.setByte_isSome (h hc).2 b) fun _=>setByte_length

end GoCoupe.EvmSafety
