import GoCoupe.EvmRunBounds

/-!
# Calls and contract creations

`Call`, `CallCode`, `Create` and `exec` of `core/execution.go` answer the questions of contract
code by running other contracts, down to the maximum depth. Bounds on one run of `Vm.Run` carry
over to the whole tree of calls.
-/

namespace GoCoupe.EvmCallTree

open InteractionPrograms EvmMachine EvmByteCodeLoop EvmSafety EvmInstructionSafety EvmRunBounds

/-- What a message asks of the state database. A snapshot is known by its number. -/
inductive HostQuery where
 | vm (q:Query)
 | canTransfer (caller:Address) (value:ℤ)
 | getNonce (a:Address)
 | setNonce (a:Address) (nonce:UInt64)
 | makeSnapshot
 | setSnapshot (snapshot:ℕ)
 | getAccount (a:Address)
 | createAccount (a:Address)
 | transfer (src dst:Address) (value:ℤ)

def HostQuery.Answer:HostQuery→Type
 | vm q=>q.Answer
 | canTransfer _ _=>Bool
 | getNonce _=>UInt64
 | makeSnapshot=>ℕ
 | setNonce _ _=>Unit
 | setSnapshot _=>Unit
 | getAccount _=>Unit
 | createAccount _=>Unit
 | transfer _ _ _=>Unit

structure Host where
 env:Environment
 createAddress:Address→UInt64→Address

structure Invocation where
 caller:Address
 address:Option Address
 codeAddr:Option Address
 input:Bytes
 code:Bytes
 gas:ℤ
 price:ℤ
 value:ℤ

abbrev Message:=Prog HostQuery.Answer

def consult (q:HostQuery):Message q.Answer:=Prog.query q

/-- `Call`, `CallCode` and `Create`. -/
def answer (exec:Invocation→Message CallResult):(q:Query)→Message q.Answer
 | .call kind me addr data gas price value=>
  consult (.vm (.getCode addr))>>=fun (code:Bytes)=>
   exec ⟨me,some (if kind=.call then addr else me),some addr,data,code,gas,price,value⟩
 | .create me data gas price value=>exec ⟨me,none,none,[],data,gas,price,value⟩
 | q=>consult (.vm q)

/-- `Vm.Run` with everything that the contract calls. There is more fuel than gas. -/
def runContract (host:Host) (exec:Invocation→Message CallResult) (con:Contract) (gas:ℤ):
 Message (Option RunResult):=
 (run (gas.toNat+1) host.env con gas).expand (answer exec)

/-- The address of the contract; a new one depends on the nonce of the creator. -/
def target (host:Host) (i:Invocation):Message Address:=
 match i.address with
 | some a=>pure a
 | none=>do
  let nonce:UInt64 ← consult (.getNonce i.caller)
  let _ ← consult (.setNonce i.caller (nonce+1))
  pure (host.createAddress i.caller nonce)

def openAccount (address:Address):(isNew:Bool)→Message Unit
 | true=>consult (.createAccount address)
 | false=>do
  let exist:Bool ← consult (.vm (.exist address))
  if exist then consult (.getAccount address) else consult (.createAccount address)

def finish (snapshot:ℕ) (address:Address) (r:RunResult):Message CallResult:=
 if r.err.isSome then do
  let _ ← consult (.setSnapshot snapshot)
  pure ⟨true,r.ret,address,r.gas⟩
 else pure ⟨false,r.ret,address,r.gas⟩

/-- The part of `exec` behind its two checks. -/
def enter (host:Host) (exec:Invocation→Message CallResult) (i:Invocation):Message CallResult:=do
 let address ← target host i
 let snapshot:ℕ ← consult .makeSnapshot
 let _ ← consult (.getAccount i.caller)
 openAccount address i.address.isNone
 let _ ← consult (.transfer i.caller address i.value)
 let o ← runContract host exec
  ⟨address,i.caller,i.code,i.input,i.codeAddr,i.value,i.price⟩ i.gas
 finish snapshot (if i.address.isNone then address else 0) (o.getD ⟨[],some .outOfGas,0⟩)

/-- `exec`, with the number of calls that may still be nested. -/
def exec (host:Host):ℕ→Invocation→Message CallResult
 | 0,i=>.done ⟨true,[],0,i.gas⟩
 | depth+1,i=>do
  let ok:Bool ← consult (.canTransfer i.caller i.value)
  if ok then enter host (exec host depth) i else pure ⟨true,[],0,i.gas⟩

def Credible:(q:HostQuery) → q.Answer→Prop
 | .vm (.getBalance _),(balance:ℤ)=>0≤balance
 | _,_=>True

lemma safe_expand{Q Q' α:Type}{R:Q→Type}{R':Q'→Type}{c:Prop}{pre:Q→Prop}
 {pre':Q'→Prop}{ok:(q:Q)→R q→Prop}{ok':(q:Q')→R' q→Prop}{post:α→Prop}
 {f:(q:Q)→Prog R' (R q)}(hf:∀q,pre q→(f q).Safe c pre' ok' (ok q))
 {p:Prog R α}(hp:p.Safe c pre ok post):(p.expand f).Safe c pre' ok' post:=by
 induction p with
 | done a=>exact hp
 | crash=>exact hp
 | ask q next ih=>exact (hf q hp.1).bind fun r hr=>ih r (hp.2 r hr)

variable {c:Prop} {host:Host} {call:Invocation→Message CallResult} {G:ℤ}

/-- An invocation with no negative amounts hands back part of its gas, and nothing or all of it
if it fails. -/
def Thrifty (c:Prop) (G:ℤ) (call:Invocation→Message CallResult):Prop:=
 ∀i,0 ≤ i.gas→i.gas≤G → 0 ≤ i.price → 0 ≤ i.value →(call i).Safe c (fun _=>True) Credible
   (fun r=>0≤r.gas ∧ r.gas ≤ i.gas ∧ (r.failed=true → r.gas=0 ∨ r.gas=i.gas))

lemma answer_safe(hcall:Thrifty c G call)
 (hq:Asks self G q):(answer call q).Safe c (fun _=>True) Credible (Answered q):=by
 have hfit:∀{g:ℤ} {P:CallResult→Prop} (r:CallResult),
  0≤r.gas∧r.gas≤g∧P r → 0≤r.gas∧r.gas≤g:=fun _ h=>⟨h.1,h.2.1⟩
 cases q with
 | call kind me addr data gas price value=>
  exact⟨trivial,fun code _=>(hcall ⟨me,some (if kind=.call then addr else me),some addr,
   data,code,gas,price,value⟩ hq.2.1 hq.2.2.1 hq.2.2.2.1 hq.2.2.2.2).mono hfit⟩
 | create me data gas price value=>
  exact (hcall ⟨me,none,none,[],data,gas,price,value⟩ hq.2.1 hq.2.2.1 hq.2.2.2.1
   hq.2.2.2.2).mono hfit
 | getBalance a=>exact⟨trivial,fun r hr=>hr⟩
 | _=>exact⟨trivial,fun _ _=>trivial⟩

lemma runContract_safe(hG:¬c→G<2^63)(hcall:Thrifty c G call){con:Contract}
 (hcon:Amounts con){g:ℤ}(hg:0≤g)(hgG:g≤G):
 (runContract host call con g).Safe c (fun _=>True) Credible
  (fun o=>∃r,o=some r∧RunWithin g r):=by
 refine safe_expand (fun q hq=>?_)
  (run_safe host.env hcon hg (fun hc=>hgG.trans_lt (hG hc)) (Nat.lt_succ_self _))
 exact answer_safe (fun i h0 hi=>hcall i h0 (hi.trans hgG)) hq

lemma enter_safe(hG:¬c→G<2^63)(hcall:Thrifty c G call)
 (h0:0 ≤ i.gas)(hle:i.gas≤G)(hp:0 ≤ i.price)(hv:0 ≤ i.value):
 (enter host call i).Safe c (fun _=>True) Credible
  (fun r=>0≤r.gas∧r.gas ≤ i.gas∧(r.failed=true → r.gas=0)):=by
 have hconsult:∀q,(consult q).Safe c (fun _=>True) Credible (fun _=>True):=
  fun q=>⟨trivial,fun _ _=>trivial⟩
 have hthen:∀{α β:Type} {p:Message α} {k:α→Message β} {post:β→Prop},
  p.Safe c (fun _=>True) Credible (fun _=>True) →
  (∀a,(k a).Safe c (fun _=>True) Credible post) →
  (p>>=k).Safe c (fun _=>True) Credible post:=fun hp hk=>hp.bind fun a _=>hk a
 refine hthen ?_ fun address=>hthen (hconsult _) fun snapshot=>hthen (hconsult _) fun _=>
  hthen ?_ fun _=>hthen (hconsult _) fun _=>(runContract_safe hG hcall ?_ h0 hle).bind ?_
 ·unfold target
  split
  ·trivial
  exact hthen (hconsult _) fun _=>hthen (hconsult _) fun _=>trivial
 ·cases i.address.isNone with
  | true=>exact hconsult _
  | false=>
   refine hthen (hconsult _) fun (exist:Bool)=>?_
   cases exist<;>exact hconsult _
 ·exact⟨hv,hp⟩
 rintro _ ⟨r,rfl,hr⟩
 unfold finish
 split
 ·next herr =>
  exact hthen (hconsult _) fun _=>
   ⟨hr.nonneg,hr.le,fun _=>hr.of_err (Option.isSome_iff_ne_none.mp herr)⟩
 exact⟨hr.nonneg,hr.le,nofun⟩

lemma exec_thrifty(hG:¬c→G<2^63)(depth:ℕ):Thrifty c G (exec host depth):=by
 induction depth with
 | zero=>exact fun i h0 _ _ _=>⟨h0,le_rfl,fun _=>.inr rfl⟩
 | succ depth ih=>
  refine fun i h0 hle hp hv=>⟨trivial,fun (ok:Bool) _=>?_⟩
  cases ok with
  | false=>exact⟨h0,le_rfl,fun _=>.inr rfl⟩
  | true=>
   exact (enter_safe hG ih h0 hle hp hv).mono fun r hr=>
    ⟨hr.1,hr.2.1,fun hf=>.inl (hr.2.2 hf)⟩

variable {σ:Type} {h:Handler HostQuery.Answer σ} {inv:σ→Prop}

/-- With less than `2 ^ 63` gas no contract crashes the interpreter, nor does anything that it
calls: whatever state the database holds, as long as it answers and has no negative balance,
`Vm.Run` returns. -/
theorem run_returns (hdb : ∀ q s, inv s → ∃ r s', h q s = some (r, s') ∧ inv s' ∧ Credible q r)
    (depth : ℕ) {con : Contract} (hcon : Amounts con) {g : ℤ} (hg : 0 ≤ g) (hlt : g < 2 ^ 63)
    {s : σ} (hs : inv s) :
    ∃ r s', (runContract host (exec host depth) con g).run h s = some (some r, s') := by
 have hsafe:(runContract host (exec host depth) con g).Safe False (fun _=>True) Credible
  (fun o=>∃r,o=some r ∧ RunWithin g r):=
  runContract_safe (fun _=>hlt) (exec_thrifty (fun _=>hlt) depth) hcon hg le_rfl
 obtain⟨_,s',hr,-,r,rfl,-⟩:=hsafe.runs (fun q s hs _=>hdb q s hs) hs
 exact⟨r,s',hr⟩

def sampleHost:Host:=⟨⟨⟨fun _=>0,id,id,fun _ _=>none⟩,0,0,0,0,0,0,fun _=>0⟩,fun _ _=>5⟩

/-- `PUSH1 1, PUSH1 2, ADD`. -/
def sampleContract:Contract:=⟨1,2,[0x60,1,0x60,2,0x01],[],none,0,1⟩

theorem run_returns_sample : ∃ (h : Handler HostQuery.Answer Unit) (r : RunResult) (s : Unit),
    (runContract sampleHost (exec sampleHost 1025) sampleContract 100).run h () =
      some (some r, s) := by
 have hq:∀q:HostQuery,∃r:q.Answer,Credible q r:=by
  intro q
  cases q with
  | vm q =>
   cases q with
   | getBalance a=>exact⟨(0:ℤ),le_refl (0:ℤ)⟩
   | call | create=>exact⟨(⟨true,[],0,0⟩:CallResult),trivial⟩
   | getCode a=>exact⟨([]:Bytes),trivial⟩
   | getState a k=>exact⟨(0:Hash),trivial⟩
   | isDeleted | exist | delete=>exact⟨false,trivial⟩
   | _=>exact⟨(),trivial⟩
  | canTransfer a v=>exact⟨true,trivial⟩
  | getNonce a=>exact⟨(0:UInt64),trivial⟩
  | makeSnapshot=>exact⟨(0:ℕ),trivial⟩
  | _=>exact⟨(),trivial⟩
 choose answer hanswer using hq
 exact⟨fun q _=>some (answer q,()),run_returns
  (fun q s (_:True)=>⟨_,_,rfl,trivial,hanswer q⟩) 1025 ⟨le_rfl,by decide⟩ (by decide)
  (by decide) trivial⟩

end GoCoupe.EvmCallTree
