import GoCoupe.BigEndianBytes
import GoCoupe.EvmOpCodes
import GoCoupe.GuardedRuns
import GoCoupe.TransactionPool

/-!
# The gas of a mined block

`commitTransactions` and `commitTransaction` of the miner over `ApplyTransaction` and the state
transition. The state database and the virtual machine are parameters. Every call takes a new
gas pool of the whole limit.
-/

namespace GoCoupe.MinerGas
open BlockWireFormats TransactionPool GuardedRuns List

inductive VmError where
 | valueTransfer
 | other
 deriving DecidableEq

structure Outcome (σ:Type) where
 state:σ
 gas:ℤ
 ret:Bytes
 address:Address
 err:Option VmError

structure Environment (σ:Type) where
 exist:σ→Address→Bool
 createAccount:σ→Address→σ
 getNonce:σ→Address→BitVec 64
 setNonce:σ→Address→BitVec 64 → σ
 getBalance:σ→Address→ℤ
 addBalance:σ→Address→ℤ→σ
 getRefund:σ→ℤ
 setCode:σ→Address→Bytes→σ
 intermediateRoot:σ→σ × Bytes
 coinbase:Address
 create:σ→Address→Bytes→(gas price value:ℤ)→Outcome σ
 call:σ→Address→Address→Bytes→(gas price value:ℤ)→Outcome σ
 refund_nonneg:∀s,0≤getRefund s
 create_gas:∀s a data gas price value,0≤gas → 0≤(create s a data gas price value).gas
 call_gas:∀s a b data gas price value,0≤gas → 0≤(call s a b data gas price value).gas

inductive TransitionError where
 | sender
 | nonce (message state:BitVec 64)
 | insufficientFunds (required balance:ℤ)
 | gasLimit (available want:ℤ)
 | outOfGas
 | valueTransfer
 deriving DecidableEq

variable {σ:Type} (env:Environment σ) (sg:Signer)

def toAddress (a:List.Vector UInt8 20):Address:=Fin.ofNat _ (BigEndianBytes.value a.toList)

/-- The account, created if it does not exist. -/
def account (s:σ) (a:Address):σ:=if env.exist s a then s else env.createAccount s a

/-- The state and the pool after the purchase. -/
def buyGas (tx:Transaction) (a:Address) (s:σ) (gp:ℤ):Except TransitionError (σ × ℤ):=
 let mgval:=tx.gasLimit*tx.price
 if env.getBalance s a < mgval then .error (.insufficientFunds mgval (env.getBalance s a))
 else if gp<tx.gasLimit then .error (.gasLimit gp tx.gasLimit)
 else .ok (env.addBalance s a (-mgval),gp-tx.gasLimit)

/-- The creation or the call, with the gas that is left. -/
def execute (tx:Transaction) (a:Address) (s:σ) (gas:ℤ):Outcome σ:=
 match tx.recipient with
 | none=>
  let o:=env.create s a tx.payload gas tx.price tx.amount
  let dataGas:=o.ret.length*EvmOpCodes.Params.createDataGas
  if o.err=none ∧ dataGas≤o.gas then
   {o with gas:=o.gas-dataGas,state:=env.setCode o.state o.address o.ret}
  else o
 | some to'=>
  let s:=env.setNonce s a (env.getNonce s a+1)
  env.call (account env s (toAddress to')) a (toAddress to') tx.payload gas tx.price tx.amount

/-- The state and the gas that goes back to the pool. -/
def refundGas (tx:Transaction) (a:Address) (s:σ) (gas:ℤ):σ × ℤ:=
 let s:=env.addBalance s a (gas*tx.price)
 let refund:=min ((tx.gasLimit-gas)/2) (env.getRefund s)
 (env.addBalance s a (refund*tx.price),gas+refund)

/-- The state, the pool, and the gas used or an error. -/
def transitionDb (tx:Transaction) (s:σ) (gp:ℤ):σ × ℤ × Except TransitionError ℤ:=
 match sg.sender tx with
 | none=>(s,gp,.error .sender)
 | some a=>
  let s:=account env s a
  if env.getNonce s a≠tx.accountNonce then
   (s,gp,.error (.nonce tx.accountNonce (env.getNonce s a)))
  else match buyGas env tx a s gp with
  | .error e=>(s,gp,.error e)
  | .ok (s,gp)=>
   if tx.gasLimit < intrinsicGas tx.payload then (s,gp,.error .outOfGas)
   else
    let o:=execute env tx a s (tx.gasLimit-intrinsicGas tx.payload)
    if o.err=some .valueTransfer then (o.state,gp,.error .valueTransfer)
    else
     let (s,gas):=refundGas env tx a o.state o.gas
     let used:=tx.gasLimit-gas
     (env.addBalance s env.coinbase (used*tx.price),gp+gas,.ok used)

structure Receipt where
 postState:Bytes
 cumulativeGasUsed:ℤ
 txHash:Hash
 gasUsed:ℤ

structure Work (σ:Type) where
 state:σ
 gasLimit:ℤ
 gasUsed:ℤ
 txs:List Transaction
 receipts:List Receipt
 tcount:ℕ
 ownedAccounts:List Address
 lowGasTransactors:List Address
 lowGasTxs:List Transaction
 ignoredTransactors:List Address
 remove:List Hash

def commitTransaction (tx:Transaction) (w:Work σ) (gp:ℤ):Work σ × ℤ × Option TransitionError:=
 let snap:=w.state
 match transitionDb env sg tx w.state gp with
 | (_,gp,.error e)=>({w with state:=snap},gp,some e)
 | (s,gp,.ok gas)=>
  let (s,root):=env.intermediateRoot s
  let used:=w.gasUsed+gas
  ({w with
   state:=s
   gasUsed:=used
   txs:=w.txs++[tx]
   receipts:=w.receipts++[⟨root,used,sg.hash tx,gas⟩]},gp,none)

/-- One round of `commitTransactions`, for a sender that is not skipped. -/
def commitNext (tx:Transaction) (w:Work σ) (gp:ℤ):Work σ × ℤ:=
 match commitTransaction env sg tx w gp with
 | (w,gp,some (.gasLimit _ _))=>
  ({w with ignoredTransactors:=sg.account tx::w.ignoredTransactors},gp)
 | (w,gp,some _)=>({w with remove:=sg.hash tx::w.remove},gp)
 | (w,gp,none)=>({w with tcount:=w.tcount+1},gp)

def commitRound (gasPrice:ℤ) (s:Work σ × ℤ) (tx:Transaction):Work σ × ℤ:=
 let a:=sg.account tx
 let w:=if tx.price<gasPrice ∧ a∉s.1.ownedAccounts then
  {s.1 with lowGasTransactors:=a::s.1.lowGasTransactors} else s.1
 if a∈w.lowGasTransactors then
  (if a∉w.ownedAccounts then {w with lowGasTxs:=w.lowGasTxs++[tx]} else w,s.2)
 else if a∈w.ignoredTransactors then (w,s.2)
 else commitNext env sg tx w s.2

def commitTransactions (w:Work σ) (call:List Transaction × ℤ):Work σ:=
 (call.1.foldl (commitRound env sg call.2) (w,w.gasLimit)).1

variable {env sg} {tx:Transaction} {w:Work σ} {s:σ} {gp:ℤ}

/-- What a transition does with the pool. -/
inductive Transition (tx:Transaction) (gp:ℤ):σ × ℤ × Except TransitionError ℤ→Prop where
 | refused {s:σ} {e:TransitionError} (hgas:e≠.outOfGas) (htransfer:e≠.valueTransfer) :
  Transition tx gp (s,gp,.error e)
 | failed {s:σ} {e:TransitionError} (hgp:tx.gasLimit≤gp)
  (he:e=.outOfGas ∨ e=.valueTransfer):Transition tx gp (s,gp-tx.gasLimit,.error e)
 | done {s:σ} {gas:ℤ} (hgp:tx.gasLimit≤gp) (hgas:0≤gas) :
  Transition tx gp (s,gp-tx.gasLimit+gas,.ok (tx.gasLimit-gas))

lemma intrinsicGas_pos(data:Bytes):0 < intrinsicGas data:=by
 have hle:=length_filter_le (· ≠ 0) data
 unfold intrinsicGas
 dsimp only
 split<;>omega

lemma execute_gas(h:0≤gas):0≤(execute env tx a s gas).gas:=by
 unfold execute
 split
 ·have hcreate:=env.create_gas s a tx.payload gas tx.price tx.amount h
  dsimp only
  split<;>[rename_i hdata;exact hcreate]
  exact sub_nonneg.2 hdata.2
 exact env.call_gas _ _ _ _ _ _ _ h

lemma refundGas_nonneg(h:0≤gas)(hlimit:0≤tx.gasLimit):0≤(refundGas env tx a s gas).2:=by
 have hrefund:=env.refund_nonneg (env.addBalance s a (gas*tx.price))
 unfold refundGas
 dsimp only
 omega

lemma transition_db(env:Environment σ)(sg:Signer)(tx:Transaction)(s:σ)(gp:ℤ):
 Transition tx gp (transitionDb env sg tx s gp):=by
 unfold transitionDb
 split
 ·exact .refused nofun nofun
 rename_i a _
 dsimp only
 split
 ·exact .refused nofun nofun
 cases hbuy:buyGas env tx a (account env s a) gp with
 | error e=>
  unfold buyGas at hbuy
  dsimp only at hbuy
  split_ifs at hbuy<;>cases hbuy<;>exact .refused nofun nofun
 | ok r=>
  unfold buyGas at hbuy
  dsimp only at hbuy
  split_ifs at hbuy with hfunds hgp
  cases hbuy
  have hgp:=not_lt.1 hgp
  have hpos:=intrinsicGas_pos tx.payload
  dsimp only
  split
  ·exact .failed hgp (.inl rfl)
  split
  ·exact .failed hgp (.inr rfl)
  exact .done hgp (refundGas_nonneg (execute_gas (by omega)) (by omega))

/-- The receipts since `w` account for the gas used. If the condition holds, the gas used since
`w` and the pool are together at most the limit. -/
structure Booked (w:Work σ) (c:Prop) (v:Work σ) (gp:ℤ):Prop where
 limit:v.gasLimit=w.gasLimit
 receipts:∃new,v.receipts=w.receipts++new ∧ v.gasUsed=w.gasUsed+(new.map Receipt.gasUsed).sum
 pool:c→v.gasUsed+gp≤w.gasUsed+w.gasLimit ∧ 0≤gp

variable {c:Prop} {v:Work σ} {price:ℤ}

lemma Booked.commitTransaction(h:Booked w c v gp)(htx:c → 0≤tx.gasLimit):
 Booked w c (commitTransaction env sg tx v gp).1 (commitTransaction env sg tx v gp).2.1:=by
 have htransition:=transition_db env sg tx v.state gp
 unfold MinerGas.commitTransaction
 generalize transitionDb env sg tx v.state gp=t at htransition ⊢
 cases htransition with
 | refused=>exact h
 | failed hgp=>
  refine⟨h.limit,h.receipts,fun hc=>?_⟩
  have hpool:=h.pool hc
  have hlimit:=htx hc
  dsimp only
  omega
 | done hgp hgas=>
  obtain⟨new,hnew,hused⟩:=h.receipts
  refine⟨h.limit,⟨_,(congrArg (· ++ _) hnew).trans (append_assoc _ _ _),?_⟩,fun hc=>?_⟩
  ·simp only[hused,map_append,sum_append,map_cons,map_nil,sum_singleton]
   omega
  have hpool:=h.pool hc
  dsimp only
  omega

lemma Booked.commitRound{s:Work σ × ℤ}(h:Booked w c s.1 s.2)(htx:c → 0≤tx.gasLimit):
 Booked w c (commitRound env sg price s tx).1 (commitRound env sg price s tx).2:=by
 unfold MinerGas.commitRound
 dsimp only
 generalize hv:(if tx.price<price∧sg.account tx∉s.1.ownedAccounts then
  {s.1 with lowGasTransactors:=sg.account tx::s.1.lowGasTransactors} else s.1)=v
 have h:Booked w c v s.2:=by
  rw[←hv]
  split<;>exact⟨h.limit,h.receipts,h.pool⟩
 split
 ·dsimp only
  split<;>exact⟨h.limit,h.receipts,h.pool⟩
 split
 ·exact h
 have hcommit:=@Booked.commitTransaction σ env sg tx w s.2 c v h htx
 unfold commitNext
 split<;>rename_i heq<;>rw[heq]at hcommit <;>
  exact⟨hcommit.limit,hcommit.receipts,hcommit.pool⟩

lemma Booked.foldl{txs:List Transaction}{s:Work σ × ℤ}(h:Booked w c s.1 s.2)
 (htxs:c→∀tx∈txs,0≤tx.gasLimit):
 ∃gp,Booked w c (txs.foldl (MinerGas.commitRound env sg price) s).1 gp:=by
 induction txs generalizing s with
 | nil=>exact⟨s.2,h⟩
 | cons tx txs ih=>
  exact ih (h.commitRound fun hc=>htxs hc tx mem_cons_self)
   (fun hc tx htx=>htxs hc tx (mem_cons_of_mem _ htx))

/-- The receipts that a call adds use no more gas than the header has left. -/
def Within (env:Environment σ) (sg:Signer) (w:Work σ) (call:List Transaction × ℤ):Prop:=
 (((commitTransactions env sg w call).receipts.drop w.receipts.length).map Receipt.gasUsed).sum ≤
  w.gasLimit-w.gasUsed

end GoCoupe.MinerGas
