import GoCoupe.BlockWireFormats
import GoCoupe.MapIteration
import Mathlib.Data.List.Sort

/-!
# The transaction pool

`TxPool` of `core/transaction_pool.go` with the part of `ManagedState` it uses. The state that
`currentState` answers with is the same throughout a call. Loops over maps take their orders.
-/

namespace GoCoupe.TransactionPool

open BlockWireFormats MapIteration

deriving instance DecidableEq for Transaction

/-- `Transaction.Hash`, and `Transaction.From` without its error. -/
structure Signer where
 hash:Transaction→Hash
 sender:Transaction→Option Address

/-- The address that a caller who ignores the error of `From` goes on with. -/
def Signer.account (sg:Signer) (tx:Transaction):Address:=(sg.sender tx).getD 0

def cost (tx:Transaction):ℤ:=tx.price*tx.gasLimit+tx.amount

def intrinsicGas (data:Bytes):ℤ:=
 if 0<data.length then
  let nz:ℤ:=(data.filter (· ≠ 0)).length
  21000+nz*68+(data.length-nz)*4
 else 21000

structure ChainState where
 accounts:Address→Option (BitVec 64 × ℤ)

namespace ChainState

def hasAccount (s:ChainState) (a:Address):Bool:=(s.accounts a).isSome

def getNonce (s:ChainState) (a:Address):BitVec 64:=((s.accounts a).map Prod.fst).getD 0

def getBalance (s:ChainState) (a:Address):ℤ:=((s.accounts a).map Prod.snd).getD 0

end ChainState

structure View where
 state:Option ChainState
 gasLimit:ℤ

/-- `account` of `managed_state.go`. -/
structure Account where
 nstart:BitVec 64
 nonces:List Bool

def newAccount (nonce:BitVec 64):Account:=⟨nonce,[]⟩

def Account.next (account:Account):BitVec 64:=BitVec.ofNat 64 account.nonces.length+account.nstart

/-- `objects` are the nonces of the state objects. -/
structure ManagedState where
 objects:Address→Option (BitVec 64)
 accounts:Address→Option Account

def manageState (s:ChainState):ManagedState:=
 {objects:=fun a=>(s.accounts a).map Prod.fst,accounts:=fun _=>none}

namespace ManagedState

def getAccount (ms:ManagedState) (a:Address) (account:Account):Account:=
 match ms.objects a with
 | some nonce=>if account.next<nonce then newAccount nonce else account
 | none=>account

def getNonce (ms:ManagedState) (a:Address):BitVec 64:=
 match ms.accounts a with
 | some account=>(ms.getAccount a account).next
 | none=>(ms.objects a).getD 0

def setNonce (ms:ManagedState) (a:Address) (nonce:BitVec 64):ManagedState:=
 {objects:=Function.update ms.objects a (some nonce)
  accounts:=Function.update ms.accounts a (some (newAccount nonce))}

end ManagedState

abbrev TxMap:=GoMap Hash Transaction

/-- Transactions with their hashes, as `txQueueEntry` has them. -/
abbrev Entry:=Σ _:Hash,Transaction

structure Pool where
 pendingState:Option ManagedState
 minGasPrice:ℤ
 pending:TxMap
 queue:GoMap Address TxMap

def newTxPool:Pool:=⟨none,0,∅,∅⟩

def maxQueued:ℕ:=64

/-- The loops over the maps of the pool. `nested` are those of the `checkQueue` that
`resetState` ends with. -/
inductive Loop where
 | invalid
 | postponed
 | rebased
 | accounts (nested:Bool)
 | queued (nested:Bool)
 | removed

structure Orders where
 visit:{α:Type} → Loop→List α→List α
 perm:∀{α:Type} (i:Loop) (l:List α),(visit i l).Perm l

inductive TxError where
 | known
 | cheap
 | invalidSender
 | noState
 | nonExistentAccount
 | nonce
 | gasLimit
 | negativeValue
 | insufficientFunds
 | intrinsicGas
 deriving DecidableEq

variable (sg:Signer)

def validateTx (view:View) (minGasPrice:ℤ) (tx:Transaction):Except TxError Unit:=
 if tx.price < minGasPrice then .error .cheap
 else
  match sg.sender tx with
  | none=>.error .invalidSender
  | some a=>
   match view.state with
   | none=>.error .noState
   | some s=>
    if !s.hasAccount a then .error .nonExistentAccount
    else if tx.accountNonce < s.getNonce a then .error .nonce
    else if view.gasLimit<tx.gasLimit then .error .gasLimit
    else if tx.amount<0 then .error .negativeValue
    else if s.getBalance a<cost tx then .error .insufficientFunds
    else if tx.gasLimit < intrinsicGas tx.payload then .error .intrinsicGas
    else .ok ()

/-- The queue of an account; a missing map reads as an empty one. -/
def queueOf (queue:GoMap Address TxMap) (a:Address):TxMap:=(queue.lookup a).getD ∅

def queueTx (queue:GoMap Address TxMap) (h:Hash) (tx:Transaction):GoMap Address TxMap:=
 queue.insert (sg.account tx) ((queueOf queue (sg.account tx)).insert h tx)

def add (view:View) (p:Pool) (tx:Transaction):Except TxError Pool:=
 if (p.pending.lookup (sg.hash tx)).isSome then .error .known
 else
  match validateTx sg view p.minGasPrice tx with
  | .error e=>.error e
  | .ok ()=>.ok {p with queue:=queueTx sg p.queue (sg.hash tx) tx}

/-- `addTx`, after the delayed initialisation that `checkQueue` has done already. -/
def addTx (h:Hash) (a:Address) (tx:Transaction) (st:ManagedState × TxMap):ManagedState × TxMap:=
 if (st.2.lookup h).isSome then st
 else (st.1.setNonce a (tx.accountNonce+1),st.2.insert h tx)

/-- A queued transaction that is dropped: processed already, or out of funds. -/
def stale (nonce:BitVec 64) (balance:ℤ) (tx:Transaction):Bool:=
 tx.accountNonce<nonce || balance<cost tx

/-- The loop over the sorted transactions of an account. -/
def promote (a:Address):List Entry→BitVec 64→TxMap→ManagedState × TxMap →
 TxMap × ManagedState × TxMap
 | [],_,txs,st=>(txs,st)
 | e::rest,guessedNonce,txs,st=>
  if guessedNonce<e.2.accountNonce then
   (if maxQueued<(e::rest).length then
    eraseAll txs (((e::rest).drop maxQueued).map Sigma.fst)
   else txs,st)
  else
   promote a rest
    (if e.2.accountNonce=guessedNonce then guessedNonce+1 else guessedNonce)
    (txs.erase e.1) (addTx e.1 a e.2 st)

structure Live where
 pendingState:ManagedState
 pending:TxMap
 queue:GoMap Address TxMap

/-- The loop that drops queued transactions and collects the others. -/
def collect (nonce:BitVec 64) (balance:ℤ) (visit:List Entry) (txs:TxMap):TxMap × List Entry:=
 visit.foldl
  (fun (st:TxMap × List Entry) q=>
   (if stale nonce balance q.2 then st.1.erase q.1 else st.1,
    if stale nonce balance q.2 then st.2 else st.2++[q]))
  (txs,[])

def checkAccount (o:Orders) (nested:Bool) (s:ChainState) (l:Live)
 (e:Σ _:Address,TxMap):Live:=
 let swept:=collect (s.getNonce e.1) (s.getBalance e.1)
  (o.visit (.queued nested) e.2.entries) e.2
 let sorted:=swept.2.insertionSort (fun q q'=>q.2.accountNonce≤q'.2.accountNonce)
 let r:=promote e.1 sorted (l.pendingState.getNonce e.1) swept.1 (l.pendingState,l.pending)
 {pendingState:=r.2.1
  pending:=r.2.2
  queue:=if r.1.entries.isEmpty then l.queue.erase e.1 else l.queue.insert e.1 r.1}

def checkLoop (o:Orders) (nested:Bool) (s:ChainState) (l:Live):Live:=
 (o.visit (.accounts nested) l.queue.entries).foldl (checkAccount o nested s) l

def past (s:ChainState) (tx:Transaction):Bool:=tx.accountNonce < s.getNonce (sg.account tx)

def broke (s:ChainState) (tx:Transaction):Bool:=s.getBalance (sg.account tx)<cost tx

/-- The least nonce of an account that has become invalid. -/
def trackGap (gaps:GoMap Address (BitVec 64)) (a:Address) (nonce:BitVec 64):
 GoMap Address (BitVec 64):=
 match gaps.lookup a with
 | none=>gaps.insert a nonce
 | some prev=>if nonce<prev then gaps.insert a nonce else gaps

/-- There is a gap at or below the nonce of the transaction. -/
def afterGap (gaps:GoMap Address (BitVec 64)) (tx:Transaction):Bool:=
 match gaps.lookup (sg.account tx) with
 | none=>false
 | some gap=>gap≤tx.accountNonce

def dropInvalid (s:ChainState) (visit:List Entry) (pending:TxMap):TxMap × GoMap Address (BitVec 64):=
 visit.foldl
  (fun (st:TxMap × GoMap Address (BitVec 64)) e=>
   (if past sg s e.2 || broke sg s e.2 then st.1.erase e.1 else st.1,
    if !past sg s e.2 && broke sg s e.2 then
     trackGap st.2 (sg.account e.2) e.2.accountNonce
    else st.2))
  (pending,∅)

def postpone (gaps:GoMap Address (BitVec 64)) (visit:List Entry) (pending:TxMap)
 (queue:GoMap Address TxMap):TxMap × GoMap Address TxMap:=
 visit.foldl
  (fun (st:TxMap × GoMap Address TxMap) e=>
   (if afterGap sg gaps e.2 then st.1.erase e.1 else st.1,
    if afterGap sg gaps e.2 then queueTx sg st.2 e.1 e.2 else st.2))
  (pending,queue)

def validatePool (o:Orders) (s:ChainState) (p:Pool):Pool:=
 let swept:=dropInvalid sg s (o.visit .invalid p.pending.entries) p.pending
 if 0 < swept.2.entries.length then
  let moved:=postpone sg swept.2 (o.visit .postponed swept.1.entries) swept.1 p.queue
  {p with pending:=moved.1,queue:=moved.2}
 else {p with pending:=swept.1}

/-- The nonce of the pending state is moved behind a pending transaction. -/
def rebaseOne (ms:ManagedState) (e:Entry):ManagedState:=
 match sg.sender e.2 with
 | none=>ms
 | some a=>
  if ms.getNonce a≤e.2.accountNonce then ms.setNonce a (e.2.accountNonce+1) else ms

def rebase (o:Orders) (pending:TxMap) (ms:ManagedState):ManagedState:=
 (o.visit .rebased pending.entries).foldl (rebaseOne sg) ms

def Pool.live (p:Pool) (ms:ManagedState):Live:=⟨ms,p.pending,p.queue⟩

def Pool.settle (p:Pool) (l:Live):Pool:=
 {p with pendingState:=some l.pendingState,pending:=l.pending,queue:=l.queue}

def resetState (o:Orders) (view:View) (p:Pool):Pool:=
 match view.state with
 | none=>p
 | some s=>
  let q:=validatePool sg o s p
  q.settle (checkLoop o true s (q.live (rebase sg o q.pending (manageState s))))

def checkQueue (o:Orders) (view:View) (p:Pool):Pool:=
 let q:=
  match p.pendingState with
  | none=>resetState sg o view p
  | some _=>p
 match view.state,q.pendingState with
 | some s,some ms=>q.settle (checkLoop o false s (q.live ms))
 | _,_=>q

def removeTx (o:Orders) (p:Pool) (h:Hash):Pool:=
 let queue:=
  match (o.visit .removed p.queue.entries).find? (fun e=>(e.2.lookup h).isSome) with
  | none=>p.queue
  | some e=>
   if e.2.entries.length=1 then p.queue.erase e.1 else p.queue.insert e.1 (e.2.erase h)
 {p with pending:=p.pending.erase h,queue:=queue}

def addAll (view:View) (p:Pool) (txs:List Transaction):Pool:=
 txs.foldl (fun p tx=>(add sg view p tx).toOption.getD p) p

inductive Call where
 | add (tx:Transaction)
 | addTransactions (txs:List Transaction)
 | removeTransactions (txs:List Transaction)
 | getTransactions
 | resetState
 | gasPriceChanged (price:ℤ)

def act (o:Orders) (view:View) (p:Pool):Call→Pool
 | .add tx=>
  match add sg view p tx with
  | .error _=>p
  | .ok q=>checkQueue sg o view q
 | .addTransactions txs=>checkQueue sg o view (addAll sg view p txs)
 | .removeTransactions txs=>txs.foldl (fun p tx=>removeTx o p (sg.hash tx)) p
 | .getTransactions=>
  let q:=checkQueue sg o view p
  match view.state with
  | none=>q
  | some s=>validatePool sg o s q
 | .resetState=>resetState sg o view p
 | .gasPriceChanged price=>{p with minGasPrice:=price}

structure Event where
 orders:Orders
 view:View
 call:Call

def run (p:Pool) (events:List Event):Pool:=events.foldl (fun p e=>act sg e.orders e.view p e.call) p

end GoCoupe.TransactionPool
