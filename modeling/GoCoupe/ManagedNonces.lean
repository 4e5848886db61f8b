import GoCoupe.GuardedRuns
import GoCoupe.TransactionPool

/-!
# Managed nonces refine a counter

The methods of `core/state/managed_state.go` against a counter for each account. They agree
until a nonce of 2^64 - 1 is given out, or one of a new account while `StartingNonce` is not 0.
-/

namespace GoCoupe.ManagedNonces
open GuardedRuns TransactionPool Function

/-- A call for an account, or a change of its nonce in the underlying state. -/
inductive Op where
 | getNonce
 | newNonce
 | removeNonce (n:BitVec 64)
 | setNonce (n:BitVec 64)
 | change (nonce:Option (BitVec 64))

def put (ms:ManagedState) (a:Address) (account:Account):ManagedState:=
 {ms with accounts:=update ms.accounts a (some account)}

/-- `getAccount` of an account that is not managed: its state object is created if need be. -/
def create (starting:BitVec 64) (ms:ManagedState) (a:Address):ManagedState:=
 {ms with objects:=update ms.objects a (some ((ms.objects a).getD starting))}

/-- The account that `getAccount` returns, and the state then. -/
def loaded (starting:BitVec 64) (ms:ManagedState) (a:Address):Account × ManagedState:=
 match ms.accounts a with
 | some account=>(ms.getAccount a account,ms)
 | none=>(newAccount ((ms.objects a).getD starting),create starting ms a)

def Account.newNonce (account:Account):BitVec 64 × Account:=
 match account.nonces.findIdx? (!·) with
 | some i=>(account.nstart+BitVec.ofNat 64 i,account)
 | none=>(account.next,{account with nonces:=account.nonces++[true]})

def Account.removeNonce (account:Account) (n:BitVec 64):Account:=
 if n-account.nstart≤BitVec.ofNat 64 account.nonces.length then
  {account with nonces:=account.nonces.take (n-account.nstart).toNat}
 else account

/-- `getAccount` and a change of the account, if it is managed. -/
def touch (ms:ManagedState) (a:Address) (f:Account→Account):ManagedState:=
 (ms.accounts a).elim ms fun account=>put ms a (f (ms.getAccount a account))

/-- What a call returns, and the state after it. -/
def call (starting:BitVec 64) (ms:ManagedState) (a:Address):Op→Option (BitVec 64) × ManagedState
 | .getNonce=>(some (ms.getNonce a),touch ms a id)
 | .newNonce=>
  let (account,ms):=loaded starting ms a
  (some (Account.newNonce account).1,put ms a (Account.newNonce account).2)
 | .removeNonce n=>(none,touch ms a (Account.removeNonce · n))
 | .setNonce n=>(none,ms.setNonce a n)
 | .change nonce=>(none,{ms with objects:=update ms.objects a nonce})

/-- The counter of an account: the nonce in the state and, if the account is managed, the base
and the next nonce. What was given out since the last `RemoveNonce` or `SetNonce` is kept. -/
structure Counter where
 state:ℕ
 managed:Option (ℕ × ℕ)
 issued:List ℕ

/-- The nonce of the state is taken over when it is higher. -/
def raise (state:ℕ) (c:ℕ × ℕ):ℕ × ℕ:=if c.2<state then (state,state) else c

def remove (n:ℕ) (c:ℕ × ℕ):ℕ × ℕ:=if c.1≤n ∧ n≤c.2 then (c.1,n) else c

def Counter.call (c:Counter):Op→Option ℕ × Counter
 | .getNonce=>(some ((c.managed.map (raise c.state)).elim c.state Prod.snd),
  {c with managed:=c.managed.map (raise c.state)})
 | .newNonce=>
  let m:=(c.managed.map (raise c.state)).getD (c.state,c.state)
  (some m.2,{c with managed:=some (m.1,m.2+1),issued:=m.2::c.issued})
 | .removeNonce n=>(none,
  {c with managed:=c.managed.map (remove n.toNat ∘ raise c.state),issued:=[]})
 | .setNonce n=>(none,⟨n.toNat,some (n.toNat,n.toNat),[]⟩)
 | .change nonce=>(none,{c with state:=(nonce.getD 0).toNat})

abbrev Pair:=ManagedState × (Address → Counter)

def step (starting:BitVec 64) (s:Pair) (e:Address × Op):Option Pair:=
 some ((call starting s.1 e.1 e.2).2,update s.2 e.1 ((s.2 e.1).call e.2).2)

def managed (s:ChainState):Pair:=(manageState s,fun a=>⟨(s.getNonce a).toNat,none,[]⟩)

/-- The nonce that is given out has a successor, and a new account starts with nonce 0. -/
def Fits (starting:BitVec 64) (s:Pair) (e:Address × Op):Prop:=
 e.2=.newNonce→(∀n∈((s.2 e.1).call .newNonce).1,n+1<2^64) ∧
  (s.1.accounts e.1=none→s.1.objects e.1=none→starting=0)

/-- The call returns what the counter returns, and no nonce is given out again. -/
def Refines (starting:BitVec 64) (s:Pair) (e:Address × Op):Prop:=
 (call starting s.1 e.1 e.2).1.map BitVec.toNat=((s.2 e.1).call e.2).1 ∧
  ((s.2 e.1).call e.2).2.issued.Nodup

/-- The flags of an account are set, and they do not reach past the last nonce. -/
def Plain (account:Account):Prop:=
 account.nstart.toNat+account.nonces.length<2^64 ∧ ∀b∈account.nonces,b=true

def view (account:Account):ℕ × ℕ:=
 (account.nstart.toNat,account.nstart.toNat+account.nonces.length)

structure Counts (ms:ManagedState) (a:Address) (c:Counter):Prop where
 state:((ms.objects a).getD 0).toNat=c.state
 managed:c.managed=(ms.accounts a).map view
 plain:∀account,ms.accounts a=some account→Plain account
 once:c.issued.Nodup
 below:∀x∈c.issued,∃m,c.managed=some m ∧ x < m.2

lemma next_toNat(h:Plain account):account.next.toNat=(view account).2:=by
 have hlt:=h.1
 simp only[Account.next,view,BitVec.toNat_add,BitVec.toNat_ofNat]
 omega

lemma le_raise(n:ℕ)(m:ℕ × ℕ):m.2≤(raise n m).2:=by
 unfold raise
 split<;>simp
 omega

lemma plain_newAccount(n:BitVec 64):Plain (newAccount n):=⟨n.isLt,nofun⟩

lemma getAccount_spec{ms:ManagedState}(h:Plain account)(hn:((ms.objects a).getD 0).toNat=n):
 Plain (ms.getAccount a account)∧view (ms.getAccount a account)=raise n (view account):=by
 subst hn
 unfold ManagedState.getAccount
 cases ms.objects a with
 | none=>exact⟨h,rfl⟩
 | some nonce=>
  simp only[Option.getD_some,BitVec.lt_def,next_toNat h,raise]
  split
  ·exact⟨plain_newAccount nonce,rfl⟩
  ·exact⟨h,rfl⟩

lemma newNonce_spec(h:Plain account)(hlt:(view account).2+1<2^64):
 (Account.newNonce account).1.toNat=(view account).2∧Plain (Account.newNonce account).2∧
  view (Account.newNonce account).2=((view account).1,(view account).2+1):=by
 have hnone:account.nonces.findIdx? (!·)=none:=by simpa using h.2
 simp only[Account.newNonce,hnone,next_toNat h]
 refine⟨trivial,⟨?_,?_⟩,?_⟩
 ·simpa[view,add_assoc]using hlt
 ·simpa[or_imp,forall_and]using h.2
 ·simp[view,add_assoc]

lemma removeNonce_spec(h:Plain account)(n:BitVec 64):Plain (Account.removeNonce account n)∧
 view (Account.removeNonce account n)=remove n.toNat (view account):=by
 have hlt:=h.1
 have hstart:=account.nstart.isLt
 have hiff:n-account.nstart≤BitVec.ofNat 64 account.nonces.length↔
  (view account).1≤n.toNat∧n.toNat≤(view account).2:=by
  simp only[BitVec.le_def,BitVec.toNat_sub,BitVec.toNat_ofNat,view]
  omega
 by_cases hn:(view account).1≤n.toNat∧n.toNat≤(view account).2
 ·have hsub:(n-account.nstart).toNat=n.toNat-account.nstart.toNat:=BitVec.toNat_sub_of_le hn.1
  have hlen:account.nstart.toNat+(account.nonces.take (n-account.nstart).toNat).length=n.toNat:=by
   simp only[view]at hn
   rw[List.length_take]
   omega
  rw[Account.removeNonce,if_pos (hiff.2 hn),remove,if_pos hn,Plain,view,hlen]
  exact⟨⟨n.isLt,fun b hb=>h.2 b (List.mem_of_mem_take hb)⟩,rfl⟩
 ·rw[Account.removeNonce,if_neg (mt hiff.1 hn),remove,if_neg hn]
  exact⟨h,rfl⟩

variable {ms:ManagedState} {c:Counter}

/-- A new account in place of the one that the counter describes. -/
lemma Counts.put(h:Counts ms a c)(hplain:Plain account)(issued:List ℕ)(honce:issued.Nodup)
 (hbelow:∀x∈issued,x<(view account).2):
 Counts (put ms a account) a {c with managed:=some (view account),issued:=issued}:=by
 refine⟨h.state,?_,?_,honce,fun x hx=>⟨_,rfl,hbelow x hx⟩⟩
 ·simp[ManagedNonces.put]
 ·simpa[ManagedNonces.put]using hplain

/-- The nonce that the counter gives next was not given before. -/
lemma Counts.lt_raise(h:Counts ms a c):
 ∀x∈c.issued,x<((c.managed.map (raise c.state)).getD (c.state,c.state)).2:=by
 intro x hx
 obtain⟨m,hm,hlt⟩:=h.below x hx
 rw[hm]
 exact lt_of_lt_of_le hlt (le_raise _ _)

lemma Counts.touch(h:Counts ms a c)
 (hf:∀account,Plain account→Plain (f account)∧view (f account)=g (view account))
 (issued:List ℕ)(honce:issued.Nodup)
 (hbelow:∀x∈issued,∃m,c.managed.map (g ∘ raise c.state)=some m∧x < m.2):
 Counts (touch ms a f) a {c with managed:=c.managed.map (g ∘ raise c.state),issued:=issued}:=by
 have hmanaged:=h.managed
 unfold ManagedNonces.touch
 cases hacc:ms.accounts a with
 | none=>
  rw[hacc,Option.map_none]at hmanaged
  exact⟨h.state,by simp[hmanaged,hacc],h.plain,honce,hbelow⟩
 | some account=>
  obtain⟨hp,hv⟩:=getAccount_spec (h.plain account hacc) h.state
  obtain⟨hp',hv'⟩:=hf _ hp
  rw[hacc,Option.map_some]at hmanaged
  have hput:=h.put hp' issued honce
  simp only[hmanaged,hv',hv,Option.map_some,Option.some_inj,exists_eq_left']at hbelow hput ⊢
  exact hput hbelow

lemma loaded_spec{starting:BitVec 64}(h:Counts ms a c)
 (hnew:ms.accounts a=none→ms.objects a=none→starting=0):
 Counts (loaded starting ms a).2 a c∧Plain (loaded starting ms a).1∧
  view (loaded starting ms a).1=(c.managed.map (raise c.state)).getD (c.state,c.state):=by
 unfold loaded
 cases hacc:ms.accounts a with
 | some account=>
  obtain⟨hplain,hview⟩:=getAccount_spec (h.plain account hacc) h.state
  refine⟨h,hplain,?_⟩
  rw[h.managed,hacc]
  exact hview
 | none=>
  have hmanaged:c.managed=none:=by rw[h.managed,hacc];rfl
  have hsame:(ms.objects a).getD starting=(ms.objects a).getD 0:=by
   cases hobj:ms.objects a with
   | none=>exact hnew hacc hobj
   | some nonce=>rfl
  refine⟨⟨?_,h.managed,h.plain,h.once,h.below⟩,plain_newAccount _,?_⟩
  ·simpa[create,hsame]using h.state
  ·rw[hmanaged,hsame,view,newAccount,h.state]
   rfl

lemma counts_call{starting:BitVec 64}(h:Counts ms a c)
 (hfits:op=.newNonce→(∀n∈(c.call .newNonce).1,n+1<2^64)∧
  (ms.accounts a=none→ms.objects a=none→starting=0)):
 (call starting ms a op).1.map BitVec.toNat=(c.call op).1∧
  Counts (call starting ms a op).2 a (c.call op).2:=by
 cases op with
 | getNonce=>
  refine⟨?_,h.touch (g:=id) (fun _ hp=>⟨hp,rfl⟩) _ h.once fun x hx=>?_⟩
  ·simp only[call,Counter.call,ManagedState.getNonce,h.managed]
   cases hacc:ms.accounts a with
   | none=>exact congrArg some h.state
   | some account=>
    obtain⟨hp,hv⟩:=getAccount_spec (h.plain account hacc) h.state
    exact congrArg some ((next_toNat hp).trans (congrArg Prod.snd hv))
  ·obtain⟨m,hm,hlt⟩:=h.below x hx
   exact⟨_,by rw[hm];rfl,lt_of_lt_of_le hlt (le_raise _ _)⟩
 | newNonce=>
  obtain⟨hlt,hnew⟩:=hfits rfl
  obtain⟨hc,hp,hv⟩:=loaded_spec h hnew
  obtain⟨hout,hp',hv'⟩:=newNonce_spec hp (by rw[hv];exact hlt _ rfl)
  refine⟨congrArg some (hout.trans (by rw[hv])),?_⟩
  rw[hv]at hv'
  have honce:=List.nodup_cons.2 ⟨fun hx=>lt_irrefl _ (h.lt_raise _ hx),h.once⟩
  have hput:=hc.put hp' _ honce ?_
  ·rw[hv']at hput
   exact hput
  ·rw[hv']
   intro x hx
   obtain rfl|hx:=List.mem_cons.1 hx
   ·exact Nat.lt_succ_self _
   ·exact Nat.lt_succ_of_lt (h.lt_raise x hx)
 | removeNonce n=>
  exact⟨rfl,h.touch (fun _ hp=>removeNonce_spec hp n) [] List.nodup_nil nofun⟩
 | setNonce n=>
  refine⟨rfl,?_,?_,?_,List.nodup_nil,nofun⟩
  ·simp[call,Counter.call,ManagedState.setNonce]
  ·simp[call,Counter.call,ManagedState.setNonce,view,newAccount]
  ·simpa[call,ManagedState.setNonce]using plain_newAccount n
 | change nonce=>
  refine⟨rfl,?_,h.managed,h.plain,h.once,h.below⟩
  simp[call,Counter.call]

/-- A call leaves the other accounts alone. -/
lemma call_other(starting:BitVec 64)(ms:ManagedState)(op:Op)(hb:b≠a):
 (call starting ms a op).2.objects b=ms.objects b∧
  (call starting ms a op).2.accounts b=ms.accounts b:=by
 cases op with
 | getNonce | removeNonce=>
  cases hacc:ms.accounts a<;>simp[call,touch,put,hacc,hb]
 | newNonce=>
  cases hacc:ms.accounts a<;>simp[call,loaded,create,put,hacc,hb]
 | setNonce | change=>simp[call,ManagedState.setNonce,hb]

/-- The methods return what the counters return, and `NewNonce` repeats no nonce. -/
theorem nonces_refine_counters (starting : BitVec 64) (s : ChainState) (ops : List (Address × Op))
    (h : Careful (step starting) (Fits starting) (managed s) ops) :
    Careful (step starting) (Refines starting) (managed s) ops := by
 have hrun:∀(s:Pair),(∀a,Counts s.1 a (s.2 a))→Careful (step starting) (Fits starting) s ops→
  Careful (step starting) (Refines starting) s ops:=by
  clear h
  induction ops with
  | nil=>exact fun _ _ _=>trivial
  | cons e ops ih=>
   obtain⟨a,op⟩:=e
   rintro s hs ⟨hfits,hrest⟩
   obtain⟨hout,hcounts⟩:=counts_call (hs a) hfits
   refine⟨⟨hout,hcounts.once⟩,fun m hm=>ih m ?_ (hrest m hm)⟩
   obtain rfl:=Option.some_inj.1 hm
   intro b
   by_cases hb:b=a
   · subst hb
     simpa using hcounts
   · obtain⟨hobjects,haccounts⟩:=call_other starting s.1 op hb
     obtain⟨h1,h2,h3,h4,h5⟩:=hs b
     rw[←hobjects] at h1
     rw[←haccounts] at h2 h3
     simpa[hb] using (⟨h1,h2,h3,h4,h5⟩:Counts _ b _)
 refine hrun _ (fun a=>⟨?_,rfl,nofun,List.nodup_nil,nofun⟩) h
 rfl

def fresh:ChainState:=⟨fun _=>none⟩

theorem nonces_refine_counters_fresh :
    Careful (step 0) (Refines 0) (managed fresh) [(1, .newNonce), (1, .getNonce)] := by
 refine nonces_refine_counters 0 fresh _ ⟨fun _=>⟨?_,fun _ _=>rfl⟩,fun _ _=>⟨nofun,fun _ _=>trivial⟩⟩
 intro n hn
 obtain rfl:=Option.some_inj.1 hn
 decide

/-- The nonces that `NewNonce` returns when it is called twice. -/
def twice (starting:BitVec 64) (ms:ManagedState):Option (BitVec 64) × Option (BitVec 64):=
 ((call starting ms 1 .newNonce).1,(call starting (call starting ms 1 .newNonce).2 1 .newNonce).1)

/-- The last nonce is given out twice. -/
theorem last_nonce_repeated :
    twice 0 ((manageState fresh).setNonce 1 (-1)) = (some (-1), some (-1)) := by
 decide +kernel

end GoCoupe.ManagedNonces
