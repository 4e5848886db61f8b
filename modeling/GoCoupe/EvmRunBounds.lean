import GoCoupe.EvmGasBounds

/-!
# Bounds on whole runs

Every turn that goes on uses gas, so a run ends after at most as many turns as there was gas,
and no instruction crashes if the gas was below `2 ^ 63`.
-/

namespace GoCoupe.EvmRunBounds

open InteractionLoops EvmMachine EvmOpCodes EvmGas EvmByteCodeLoop EvmMemory EvmSafety
open EvmInstructionSafety EvmGasBounds

variable {c:Prop} {G:ℤ}

variable {op:OpCode} {f:Frame} {con:Contract} {g:ℤ} {crypto:Crypto}
 {p:PrecompiledAccount}

lemma passedOn_le_priceFloor:passedOn op s≤priceFloor op s:=by
 have hhalt:halting op=true→passedOn op s=0:=by
  cases op<;>simp[halting,passedOn]
 unfold priceFloor
 split
 ·rename_i h
  exact (hhalt h).le
 omega

/-- A frame that an instruction leaves is solvent again, and has less gas if the loop goes
on. -/
lemma solvent_of_turned(hf:Solvent c G f)(hpaid:Paid c op f f₁)
 (hturn:Turned (passedOn op f₁.stack) f₁ f')(hop:halting op=false):
 Solvent c G f'∧f'.gas<f.gas:=by
 have hfloor:priceFloor op f.stack=passedOn op f.stack+1:=by
  rw[priceFloor,hop]
  rfl
 have hle:=hpaid.gas_le
 have hgas:=hturn.gas_le
 rw[hpaid.stack]at hgas
 have hless:f'.gas<f.gas:=by omega
 refine⟨⟨hturn.nonneg,hturn.gas_nonneg,hless.le.trans hf.gas_le,?_⟩,hless⟩
 intro hc
 have hfee:=hpaid.fee_le hc
 have hsolvent:=hf.fee_le hc
 rw[hturn.mem]
 omega

lemma gas_le_of_turned(hpaid:Paid c op f f₁)
 (hturn:Turned (passedOn op f₁.stack) f₁ f'):f'.gas≤f.gas:=by
 have hle:=hpaid.gas_le
 have hgas:=hturn.gas_le
 have hfloor:passedOn op f.stack≤priceFloor op f.stack:=passedOn_le_priceFloor
 rw[hpaid.stack]at hgas
 omega

lemma byteStep_ensures(env:Environment)(hcon:Amounts con)(hG:¬c→G<2^63)(hf:Solvent c G f)(pc:ℕ):
 Ensures c con.self G (byteStep env con pc) f (fun r f'=>0≤f'.gas∧f'.gas≤f.gas∧
  ∀pc',r=.inl pc' → Solvent c G f'∧f'.gas<f.gas):=by
 refine ensures_bind (prepare_ensures con (getOp con.code pc) hG hf) ?_
 intro _ f₁ hpaid
 have hs:Nonneg f₁.stack:=hpaid.stack▸hf.nonneg
 have hle:=hpaid.gas_le
 have hfloor:0≤priceFloor (getOp con.code pc) f.stack:=priceFloor_nonneg hf.nonneg
 have hgasG:f₁.gas≤G:=by
  have:=hf.gas_le
  omega
 have hpass:passedOn (getOp con.code pc) f₁.stack≤G:=by
  have:=hf.gas_le
  have:=hpaid.gas_nonneg
  have hge:passedOn (getOp con.code pc) f.stack≤priceFloor (getOp con.code pc) f.stack:=
   passedOn_le_priceFloor
  rw[hpaid.stack]
  omega
 have hturn:Ensures c con.self G (execOp env con (getOp con.code pc) pc) f₁
  (fun _ f'=>Turned (passedOn (getOp con.code pc) f₁.stack) f₁ f'):=
  execOp_ensures env hcon rfl hs (hpaid.stack▸hpaid.operands) (hpaid.stack▸hpaid.covered)
   hpaid.gas_nonneg hgasG hpass
 cases hop:halting (getOp con.code pc) with
 | false=>
  refine ensures_mono hturn fun r f' ht=>?_
  exact⟨ht.gas_nonneg,gas_le_of_turned hpaid ht,fun _ _=>solvent_of_turned hf hpaid ht hop⟩
 | true=>
  have hright:Ensures c con.self G (execOp env con (getOp con.code pc) pc) f₁
   (fun r _=>r.isRight):=
   execOp_halts env hop hs (hpaid.stack▸hpaid.operands) (hpaid.stack▸hpaid.covered)
  refine ensures_mono (ensures_and hturn hright) fun r f' ht=>?_
  refine⟨ht.1.gas_nonneg,gas_le_of_turned hpaid ht.1,fun pc' hr=>?_⟩
  rw[hr]at ht
  simp at ht

/-- What a loop that started with the gas `G` may end with. -/
def Within (G:ℤ):Halted→Prop
 | .ok (_,gas)=>0≤gas ∧ gas≤G
 | .error _=>True

lemma loop_safe(env:Environment)(hcon:Amounts con)(hg:0≤g)(hG:¬c → g<2^63)(hfuel:g.toNat<fuel):
 (iterate (loopStep (byteStep env con)) fuel (0,.init g)).Safe c (Asks con.self g) Answered
  (fun o=>∃b,o=some b∧Within g b):=by
 refine iterate_safe (Solvent c g ·.2) (·.2.gas.toNat) ?_ fuel (0,.init g)
  hfuel ?_
 ·rintro⟨pc,f⟩ hf
  refine (byteStep_ensures env hcon hG hf pc).bind ?_
  have hfg:=hf.gas_le
  rintro (e|⟨pc'|ret,f'⟩) ⟨h0,hle,hnext⟩
  ·trivial
  ·obtain⟨hsol,hlt⟩:=hnext pc' rfl
   exact⟨hsol,by dsimp only at *;omega⟩
  exact⟨h0,hle.trans hfg⟩
 exact⟨nonneg_nil,hg,le_rfl,fun _=>by simp[Frame.init,lengthFee,toWordSize,memoryFee]⟩

lemma precompiled_gas_nonneg(hp:precompiled crypto addr=some p)(l:ℕ):0≤p.gas l:=by
 unfold precompiled at hp
 split at hp
 all_goals
  simp only[Option.some.injEq,reduceCtorEq]at hp
  try subst hp
  try simp only[linearGas,Params.ecrecoverGas,Params.sha256Gas,Params.sha256WordGas,
   Params.ripemd160Gas,Params.ripemd160WordGas,Params.identityGas,Params.identityWordGas]
  try omega

lemma runPrecompiled_within(hp:precompiled crypto addr=some p)(input:Bytes):
 Within g (runPrecompiled p input g):=by
 have hprice:0≤p.gas input.length:=precompiled_gas_nonneg hp input.length
 unfold runPrecompiled
 split
 ·trivial
 exact⟨by omega,by omega⟩

/-- `Vm.Run` on the gas `g` comes to its end. It hands back between nothing and `g`, and
nothing if it failed. -/
structure RunWithin (g:ℤ) (r:RunResult):Prop where
 nonneg:0≤r.gas
 le:r.gas≤g
 of_err:r.err≠none → r.gas=0

lemma settle_within(hg:0≤g)(h:Within g b):RunWithin g (settle b):=by
 cases b with
 | error e=>exact⟨le_rfl,hg,fun _=>rfl⟩
 | ok r=>exact⟨h.1,h.2,fun he=>absurd rfl he⟩

lemma run_safe(env:Environment)(hcon:Amounts con)(hg:0≤g)(hG:¬c → g<2^63)(hfuel:g.toNat<fuel):
 (run fuel env con g).Safe c (Asks con.self g) Answered
  (fun o=>∃r,o=some r∧RunWithin g r):=by
 unfold run runWith
 split
 ·rename_i p hp
  obtain⟨addr,-,hp⟩:=Option.bind_eq_some_iff.1 hp
  exact⟨_,rfl,settle_within hg (runPrecompiled_within hp con.input)⟩
 split
 ·exact⟨_,rfl,hg,le_rfl,fun he=>absurd rfl he⟩
 refine (loop_safe env hcon hg hG hfuel).bind ?_
 rintro _ ⟨b,rfl,hb⟩
 exact⟨_,rfl,settle_within hg hb⟩

end GoCoupe.EvmRunBounds
