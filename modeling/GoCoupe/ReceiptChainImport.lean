import GoCoupe.LogBlooms

/-!
# Parallel import of receipts

`InsertReceiptChain` of `core/blockchain.go` hands blocks to workers. One event lets one worker
make its next access to the shared state: a load of a flag, a read, or a batch write.
-/

namespace GoCoupe.ReceiptChainImport
open BigEndianBytes BitFilters DatabaseKeys LogBlooms List Option

structure ChainTx where
 hash:Hash
 sender:Address
 nonce:UInt64
 recipient:Option Address

structure ChainBlock where
 number:UInt64
 hash:Hash
 transactions:List ChainTx

structure Batch where
 blockChain:List ChainBlock
 receiptChain:List (List Receipt)

inductive Phase where
 | idle
 | taken (index:ℕ)
 | admitted (index:ℕ)
 | checked (index:ℕ)
 | headed (index:ℕ)
 | derived (index:ℕ) (receipts:List Receipt)
 | bodied (index:ℕ) (receipts:List Receipt)
 | merging (index:ℕ) (receipts:List Receipt) (reads:List (Option Bytes))
 | stopped

/-- The state shared by the workers, and their phases. `processed` lists the blocks that
`stats.processed` counts, and `errs` those with an unknown header. -/
structure ImportState where
 db:Db
 headers:Hash→Bool
 bodies:Hash→Option (List ChainTx)
 blockReceipts:Hash→Option (List Receipt)
 tasks:List ℕ
 interrupted:Bool
 failed:ℕ
 errs:List ℕ
 ignored:ℕ
 processed:List ℕ
 workers:List Phase

section Model

variable (keccak:Bytes→Hash) (createAddress:Address→UInt64→Address) (batch:Batch)

/-- The derived fields of the logs of the receipt with the index `j`. -/
def deriveLogs (block:ChainBlock) (txHash:Hash) (j logIndex:ℕ) (logs:List Log):List Log:=
 logs.zipIdx.map (fun l=>{l.1 with
  blockNumber:=block.number
  blockHash:=block.hash
  txHash:=txHash
  txIndex:=j
  index:=logIndex+l.2})

/-- The receipts with all non-consensus fields; `none` if there are more receipts than
transactions, which panics. -/
def deriveFrom (block:ChainBlock):ℕ→ℤ→ℕ→List ChainTx→List Receipt→Option (List Receipt)
 | _,_,_,_,[]=>some []
 | _,_,_,[],_::_=>none
 | j,previous,logIndex,tx::txs,r::rs=>
  (deriveFrom block (j+1) r.cumulativeGasUsed (logIndex+r.logs.length) txs rs).map
   (fun rest=>
    {r with
     txHash:=tx.hash
     contractAddress:=if tx.recipient=none then createAddress tx.sender tx.nonce else r.contractAddress
     gasUsed:=r.cumulativeGasUsed-previous
     logs:=deriveLogs block tx.hash j logIndex r.logs} :: rest)

def deriveReceipts (block:ChainBlock) (receipts:List Receipt):Option (List Receipt):=
 deriveFrom createAddress block 0 0 0 block.transactions receipts

def Batch.block (index:ℕ):Option ChainBlock:=batch.blockChain[index]?

def Batch.receipts (index:ℕ):List Receipt:=batch.receiptChain.getD index []

def ImportState.hasBlock (s:ImportState) (hash:Hash):Bool:=s.headers hash && (s.bodies hash).isSome

/-- One level of `WriteMipmapBloom`: the filter found there, unless it is too long to be one. -/
def readLevel (s:ImportState) (block:ChainBlock) (index:ℕ) (receipts:List Receipt)
 (reads:List (Option Bytes)) (level:UInt64):Option (Phase × ImportState):=
 let data:=s.db (mipmapItem block.number level).key
 if (data.getD []).length≤bloomLength then
  some (.merging index receipts (reads++[data]),s)
 else none

/-- The next access of a worker; `none` if it has stopped or panics. -/
def ImportState.advance (s:ImportState):Phase→Option (Phase × ImportState)
 | .idle=>
  match s.tasks with
  | []=>some (.stopped,s)
  | index::tasks=>some (.taken index,{s with tasks:=tasks})
 | .taken index=>some (if s.interrupted then .stopped else .admitted index,s)
 | .admitted index=>some (if 0 < s.failed then .stopped else .checked index,s)
 | .checked index=>
  (batch.block index).map (fun block=>
   if s.headers block.hash then (.headed index,s)
   else (.stopped,{s with failed:=s.failed+1,errs:=s.errs++[index]}))
 | .headed index=>do
  let block ← batch.block index
  if s.hasBlock block.hash then some (.idle,{s with ignored:=s.ignored+1})
  else (deriveReceipts createAddress block (batch.receipts index)).map (fun receipts=>
   (.derived index receipts,s))
 | .derived index receipts=>
  (batch.block index).map (fun block=>
   (.bodied index receipts,
    {s with bodies:=Function.update s.bodies block.hash (some block.transactions)}))
 | .bodied index receipts=>
  (batch.block index).map (fun block=>
   (.merging index receipts [],{s with
     blockReceipts:=Function.update s.blockReceipts block.hash (some receipts)}))
 | .merging index receipts reads=>do
  let block ← batch.block index
  match mipMapLevels[reads.length]? with
  | some level=>readLevel s block index receipts reads level
  | none=>some (.idle,{s with
    db:=(mipmapWrites keccak block.number receipts reads).foldl write s.db
    processed:=s.processed++[index]})
 | .stopped=>none

inductive Event where
 | work (worker:ℕ)
 | interrupt

def ImportState.act (s:ImportState):Event→Option ImportState
 | .work worker=>
  s.workers[worker]?.bind (fun phase=>
   (s.advance keccak createAddress batch phase).map (fun next=>
    {next.2 with workers:=s.workers.set worker next.1}))
 | .interrupt=>some {s with interrupted:=true}

def ImportState.run (s:ImportState):List Event→Option ImportState
 | []=>some s
 | e::es=>(s.act keccak createAddress batch e).bind (ImportState.run · es)

def start (db:Db) (headers:Hash→Bool) (bodies:Hash→Option (List ChainTx))
 (blockReceipts:Hash→Option (List Receipt)) (workers:ℕ):ImportState:=
 {db:=db
  headers:=headers
  bodies:=bodies
  blockReceipts:=blockReceipts
  tasks:=range (min batch.blockChain.length batch.receiptChain.length)
  interrupted:=false
  failed:=0
  errs:=[]
  ignored:=0
  processed:=[]
  workers:=replicate workers .idle}

/-- The bloom of every level has the address of every log of every imported block. -/
def Findable (s:ImportState):Prop:=
 ∀index∈s.processed,∀block,batch.block index=some block →
  ∀a∈loggers (batch.receipts index),∀level∈mipMapLevels,
   testBytes keccak (getMipmapBloom s.db block.number level) (addressBytes a)=true

/-- The write that a worker is about to make takes no bit from a stored bloom. -/
def Keeps (s:ImportState):Event→Prop
 | .work worker=>
  ∀index receipts reads block,s.workers[worker]?=some (.merging index receipts reads) →
   mipMapLevels.length≤reads.length→batch.block index=some block →
   ∀w∈mipmapWrites keccak block.number receipts reads,
    Covers (value (w.2.getD [])) (value ((s.db w.1.key).getD []))
 | .interrupt=>True

/-- Every step of the run keeps the stored blooms. -/
def Careful (s:ImportState):List Event→Prop
 | []=>True
 | e::es=>Keeps keccak batch s e ∧ ∀next,s.act keccak createAddress batch e=some next → Careful next es

end Model

section Proofs

variable {keccak:Bytes→Hash} {createAddress:Address→UInt64→Address} {batch:Batch}

lemma address_deriveLogs(block:ChainBlock)(txHash:Hash)(j logIndex:ℕ)(logs:List Log):
 (deriveLogs block txHash j logIndex logs).map Log.address=logs.map Log.address:=by
 rw[deriveLogs,List.map_map]
 have hcomp:(Log.address ∘ fun l:Log × ℕ=>{l.1 with
  blockNumber:=block.number
  blockHash:=block.hash
  txHash:=txHash
  txIndex:=j
  index:=logIndex+l.2})=Log.address ∘ Prod.fst:=rfl
 rw[hcomp,←List.map_map,zipIdx_map_fst]

lemma loggers_deriveFrom
 (h:deriveFrom createAddress block j previous logIndex txs rs=some derived):
 loggers derived=loggers rs:=by
 induction rs generalizing j previous logIndex txs derived with
 | nil=>
  rw[deriveFrom]at h
  rw[←some.inj h]
 | cons r rs ih=>
  cases txs with
  | nil=>cases h
  | cons tx txs=>
   rw[deriveFrom,map_eq_some_iff]at h
   obtain⟨rest,hrest,rfl⟩:=h
   have htail:=ih hrest
   rw[loggers]at htail ⊢
   rw[flatMap_cons,htail,address_deriveLogs,loggers,loggers,flatMap_cons]

/-- What a worker holds on to belongs to the block it imports. -/
def Sound (batch:Batch):Phase→Prop
 | .derived index receipts | .bodied index receipts=>
  loggers receipts=loggers (batch.receipts index)
 | .merging index receipts reads=>
  loggers receipts=loggers (batch.receipts index) ∧ ∀data∈reads,Fits data
 | _=>True

variable {next phase:Phase} {s t:ImportState} {level number:UInt64} {es:List Event}

/-- An access either leaves blooms and `processed` alone or is the write that ends an import. -/
lemma advance_cases(h:s.advance keccak createAddress batch phase=some (next,t))
 (hs:Sound batch phase):
 (t.db=s.db∧t.processed=s.processed∧Sound batch next)∨
  ∃index receipts reads block,phase=.merging index receipts reads∧
   mipMapLevels.length≤reads.length∧batch.block index=some block∧next=.idle∧
   t.db=(mipmapWrites keccak block.number receipts reads).foldl write s.db∧
   t.processed=s.processed++[index]:=by
 cases phase with
 | idle=>
  rw[ImportState.advance]at h
  split at h
  ·cases h
   exact Or.inl ⟨rfl,rfl,trivial⟩
  cases h
  exact Or.inl ⟨rfl,rfl,trivial⟩
 | taken | admitted=>
  rw[ImportState.advance]at h
  cases h
  left
  split<;>exact⟨rfl,rfl,trivial⟩
 | checked index=>
  obtain⟨block,-,h⟩:=map_eq_some_iff.1 h
  split at h
  ·cases h
   exact Or.inl ⟨rfl,rfl,trivial⟩
  cases h
  exact Or.inl ⟨rfl,rfl,trivial⟩
 | headed index=>
  rw[ImportState.advance]at h
  obtain⟨block,-,h⟩:=bind_eq_some_iff.1 h
  split at h
  ·cases h
   exact Or.inl ⟨rfl,rfl,trivial⟩
  obtain⟨receipts,hderive,h⟩:=map_eq_some_iff.1 h
  cases h
  exact Or.inl ⟨rfl,rfl,loggers_deriveFrom hderive⟩
 | derived index receipts=>
  obtain⟨block,-,⟨⟩⟩:=map_eq_some_iff.1 h
  exact Or.inl ⟨rfl,rfl,hs⟩
 | bodied index receipts=>
  obtain⟨block,-,⟨⟩⟩:=map_eq_some_iff.1 h
  exact Or.inl ⟨rfl,rfl,hs,fun data hdata=>absurd hdata not_mem_nil⟩
 | merging index receipts reads=>
  rw[ImportState.advance]at h
  obtain⟨block,hblock,h⟩:=bind_eq_some_iff.1 h
  split at h
  ·rw[readLevel]at h
   split at h
   ·rename_i hfits
    cases h
    left
    refine⟨rfl,rfl,hs.1,fun data hdata=>?_⟩
    rcases mem_append.1 hdata with hdata|hdata
    ·exact hs.2 data hdata
    rw[mem_singleton.1 hdata]
    exact hfits
   cases h
  rename_i hnone
  cases h
  exact Or.inr ⟨index,receipts,reads,block,rfl,getElem?_eq_none_iff.1 hnone,hblock,rfl,rfl,rfl⟩
 | stopped=>cases h

structure ImportOk (keccak:Bytes→Hash) (batch:Batch) (s:ImportState):Prop where
 sound:∀phase∈s.workers,Sound batch phase
 findable:Findable keccak batch s

lemma Sound.set(h:∀phase∈s.workers,Sound batch phase)(worker:ℕ)(hnext:Sound batch next):
 ∀phase∈s.workers.set worker next,Sound batch phase:=by
 intro phase hphase
 rcases mem_or_eq_of_mem_set hphase with hmem|rfl
 ·exact h phase hmem
 exact hnext

/-- The bloom of each level after the write has the addresses of the block. -/
lemma testBytes_after_write(hfits:∀data∈reads,Fits data)(hreads:mipMapLevels.length≤reads.length)
 (ha:a∈loggers receipts)(hlevel:level∈mipMapLevels):
 testBytes keccak (getMipmapBloom ((mipmapWrites keccak number receipts reads).foldl write db)
  number level) (addressBytes a)=true:=by
 rw[testBytes_iff,getMipmapBloom]
 rcases foldl_write_cases (mipmapWrites keccak number receipts reads) db
  (mipmapItem number level).key with⟨w,hw,-,hval⟩ | ⟨hnone,-⟩
 ·obtain⟨r,hr,rfl⟩:=mem_map.1 hw
  rw[hval]
  exact covers_addToBloom_of_mem (hfits r.2 (of_mem_zip hr).2) ha
 obtain⟨i,hi,rfl⟩:=getElem_of_mem hlevel
 have hzip:(mipMapLevels[i],reads[i])∈mipMapLevels.zip reads:=by
  rw[mem_iff_getElem]
  exact⟨i,by rw[length_zip];omega,getElem_zip⟩
 exact absurd rfl (hnone _ (mem_map_of_mem hzip))

/-- Blooms that a write keeps still test positive. -/
lemma testBytes_kept{db:Db}{ws:List (DbItem × Option Bytes)}
 (h:∀w∈ws,Covers (value (w.2.getD [])) (value ((db w.1.key).getD []))){a:Address}
 (ha:testBytes keccak (getMipmapBloom db number level) (addressBytes a)=true):
 testBytes keccak (getMipmapBloom (ws.foldl write db) number level) (addressBytes a)=true:=by
 refine testBytes_mono ?_ ha
 rw[getMipmapBloom,getMipmapBloom]
 rcases foldl_write_cases ws db (mipmapItem number level).key with⟨w,hw,hkey,hval⟩|⟨-,hval⟩
 ·rw[hval,←hkey]
  exact h w hw
 rw[hval]
 exact covers_refl _

lemma ImportOk.act(hs:ImportOk keccak batch s){e:Event}(hkeeps:Keeps keccak batch s e)
 (h:s.act keccak createAddress batch e=some t):ImportOk keccak batch t:=by
 cases e with
 | interrupt=>
  cases h
  exact⟨hs.sound,hs.findable⟩
 | work worker=>
  rw[ImportState.act]at h
  obtain⟨phase,hphase,h⟩:=bind_eq_some_iff.1 h
  obtain⟨next,hnext,rfl⟩:=map_eq_some_iff.1 h
  have hsound:=hs.sound phase (mem_of_getElem? hphase)
  rcases advance_cases hnext hsound with⟨hdb,hprocessed,hnextSound⟩ |
   ⟨index,receipts,reads,block,rfl,hreads,hblock,hidle,hdb,hprocessed⟩
  ·refine⟨Sound.set hs.sound worker hnextSound,?_⟩
   have hfind:=hs.findable
   rw[Findable,←hdb,←hprocessed]at hfind
   exact hfind
  refine⟨Sound.set hs.sound worker (by rw[hidle];trivial),?_⟩
  intro i hi block' hblock' a ha level hlevel
  dsimp only at hi ⊢
  rw[hprocessed]at hi
  rw[hdb]
  rcases mem_append.1 hi with hi|hi
  ·exact testBytes_kept (hkeeps index receipts reads block hphase hreads hblock)
    (hs.findable i hi block' hblock' a ha level hlevel)
  obtain rfl:=mem_singleton.1 hi
  obtain rfl:=some.inj (hblock.symm.trans hblock')
  rw[←hsound.1]at ha
  exact testBytes_after_write hsound.2 hreads ha hlevel

lemma ImportOk.run(hs:ImportOk keccak batch s)(hcareful:Careful keccak createAddress batch s es)
 (h:s.run keccak createAddress batch es=some t):ImportOk keccak batch t:=by
 induction es generalizing s with
 | nil=>
  cases h
  exact hs
 | cons e es ih=>
  rw[ImportState.run]at h
  obtain⟨next,hact,hrun⟩:=bind_eq_some_iff.1 h
  exact ih (hs.act hcareful.1 hact) (hcareful.2 next hact) hrun

lemma importOk_start(db:Db)(headers:Hash→Bool)(bodies:Hash→Option (List ChainTx))
 (blockReceipts:Hash→Option (List Receipt))(workers:ℕ):
 ImportOk keccak batch (start batch db headers bodies blockReceipts workers):=by
 constructor
 ·intro phase hphase
  rw[eq_of_mem_replicate hphase]
  trivial
 intro index hindex
 cases hindex

/-- In every run in which no write takes a bit from a stored bloom, every log of every imported
block is found in the bloom of every level. -/
theorem findable_of_careful (db : Db) (headers : Hash → Bool)
    (bodies : Hash → Option (List ChainTx)) (blockReceipts : Hash → Option (List Receipt))
    (workers : ℕ) (es : List Event) (s : ImportState)
    (hcareful : Careful keccak createAddress batch
      (start batch db headers bodies blockReceipts workers) es)
    (hrun : (start batch db headers bodies blockReceipts workers).run keccak createAddress batch es =
      some s) : Findable keccak batch s :=
 ((importOk_start db headers bodies blockReceipts workers).run hcareful hrun).findable

/-- What the worker read is still what the database holds. -/
def Current (batch:Batch) (s:ImportState):Phase→Prop
 | .merging index _ reads=>∀block,batch.block index=some block →
  reads=(mipMapLevels.take reads.length).map (fun level=>
   s.db (mipmapItem block.number level).key)
 | _=>True

lemma Current.advance(hc:Current batch s phase)
 (h:s.advance keccak createAddress batch phase=some (next,t)):Current batch t next:=by
 cases phase with
 | idle=>
  rw[ImportState.advance]at h
  split at h<;>cases h<;>trivial
 | taken | admitted=>
  rw[ImportState.advance]at h
  cases h
  split<;>trivial
 | checked index=>
  obtain⟨block,-,h⟩:=map_eq_some_iff.1 h
  split at h<;>cases h<;>trivial
 | headed index=>
  rw[ImportState.advance]at h
  obtain⟨block,-,h⟩:=bind_eq_some_iff.1 h
  split at h
  ·cases h
   trivial
  obtain⟨receipts,-,h⟩:=map_eq_some_iff.1 h
  cases h
  trivial
 | derived index receipts=>
  obtain⟨block,-,⟨⟩⟩:=map_eq_some_iff.1 h
  trivial
 | bodied index receipts=>
  obtain⟨block,-,⟨⟩⟩:=map_eq_some_iff.1 h
  intro block' _
  rfl
 | merging index receipts reads=>
  rw[ImportState.advance]at h
  obtain⟨block,hblock,h⟩:=bind_eq_some_iff.1 h
  split at h
  ·rename_i level hlevel
   rw[readLevel]at h
   split at h
   ·cases h
    intro block' hblock'
    obtain rfl:=some.inj (hblock.symm.trans hblock')
    rw[length_append,length_singleton,take_add_one,hlevel,map_append,←hc block hblock]
    rfl
   cases h
  cases h
  trivial
 | stopped=>cases h

/-- A worker whose reads are current takes nothing from the blooms. -/
lemma keeps_of_current(hsound:∀phase∈s.workers,Sound batch phase)
 (hc:∀phase,s.workers[worker]?=some phase → Current batch s phase):
 Keeps keccak batch s (.work worker):=by
 intro index receipts reads block hphase hreads hblock w hw
 have hcurrent:=hc _ hphase block hblock
 rw[take_of_length_le hreads]at hcurrent
 obtain⟨r,hr,rfl⟩:=mem_map.1 hw
 have hdata:r.2=s.db (mipmapItem block.number r.1).key:=by
  rw[hcurrent]at hr
  obtain⟨i,hi,rfl⟩:=getElem_of_mem hr
  rw[getElem_zip]
  exact getElem_map _
 dsimp only
 rw[←hdata]
 exact covers_addToBloom ((hsound _ (mem_of_getElem? hphase)).2 r.2 (of_mem_zip hr).2) _

lemma careful_of_single(hs:ImportOk keccak batch s)(hworkers:s.workers=[phase])
 (hc:Current batch s phase)(es:List Event):Careful keccak createAddress batch s es:=by
 induction es generalizing s phase with
 | nil=>trivial
 | cons e es ih=>
  have hkeeps:Keeps keccak batch s e:=by
   cases e with
   | interrupt=>trivial
   | work worker=>
    apply keeps_of_current hs.sound
    intro phase' hphase'
    have hmem:=mem_of_getElem? hphase'
    rw[hworkers,mem_singleton]at hmem
    rwa[hmem]
  refine⟨hkeeps,fun next hact=>?_⟩
  have hnext:=hs.act hkeeps hact
  cases e with
  | interrupt=>
   cases hact
   exact ih hnext hworkers (by cases phase<;>exact hc)
  | work worker=>
   rw[ImportState.act]at hact
   obtain⟨phase',hphase',hact⟩:=bind_eq_some_iff.1 hact
   obtain⟨result,hresult,rfl⟩:=map_eq_some_iff.1 hact
   have hmem:=mem_of_getElem? hphase'
   have hlt:=(List.getElem?_eq_some_iff.1 hphase').1
   rw[hworkers,mem_singleton]at hmem
   rw[hworkers,length_singleton,Nat.lt_one_iff]at hlt
   subst hmem hlt
   have hworkers':s.workers.set 0 result.1=[result.1]:=by
    rw[hworkers]
    rfl
   apply ih hnext hworkers'
   ·have hcurrent:=hc.advance hresult
    cases hfirst:result.1<;>rw[hfirst]at hcurrent<;>exact hcurrent

/-- An import by a single worker keeps every log findable, whatever the batch. -/
lemma findable_of_single_worker(db:Db)(headers:Hash→Bool)
 (bodies:Hash→Option (List ChainTx))(blockReceipts:Hash→Option (List Receipt))
 (hrun:(start batch db headers bodies blockReceipts 1).run keccak createAddress batch es =
  some s):Findable keccak batch s:=by
 have hstart:=@importOk_start keccak batch db headers bodies blockReceipts 1
 exact (hstart.run (careful_of_single hstart rfl trivial es) hrun).findable

end Proofs

namespace TwoWorkers

def logOf (a:Address):Log:=
 {address:=a,topics:=[],data:=[],blockNumber:=0,txHash:=0,txIndex:=0,blockHash:=0,index:=0}

def receiptsOf (a:Address):List Receipt:=
 [{postState:=[],cumulativeGasUsed:=21000,bloom:=0,logs:=[logOf a],txHash:=0,
   contractAddress:=0,gasUsed:=0}]

def blockOf (n:UInt64) (h:Hash):ChainBlock:=
 {number:=n,hash:=h
  transactions:=[{hash:=h,sender:=7,nonce:=n,recipient:=some 8}]}

/-- Two blocks of one bin, each of which logs once. -/
def batch:Batch:=
 {blockChain:=[blockOf 1 11,blockOf 2 12]
  receiptChain:=[receiptsOf 1,receiptsOf 2]}

def hashOf (b:Bytes):Hash:=Fin.ofNat _ (value b*2^240)

def begun (workers:ℕ):ImportState:=
 start batch (fun _=>none) (fun _=>true) (fun _=>none) (fun _=>none) workers

def finished (workers:ℕ) (es:List Event):Option ImportState:=
 (begun workers).run hashOf (fun _ _=>0) batch es

/-- The first worker reads all levels, the second one imports its block, the first one writes. -/
def overtaken:List Event:=replicate 12 (.work 0)++replicate 13 (.work 1)++[.work 0]

/-- The address of the second block is in no bloom, although both blocks are imported. -/
theorem log_lost_when_overtaken :
    ∃ s, finished 2 overtaken = some s ∧ s.processed = [1, 0] ∧ ¬Findable hashOf batch s := by
 have hrun:(finished 2 overtaken).map (fun s=>(s.processed,
  testBytes hashOf (getMipmapBloom s.db 2 1000) (addressBytes 2)))=some ([1,0],false):=by
  decide +kernel
 obtain⟨s,hs,hlost⟩:=map_eq_some_iff.1 hrun
 obtain⟨hprocessed,htest⟩:=Prod.mk.inj hlost
 refine⟨s,hs,hprocessed,fun hfind=>?_⟩
 have hmem:1∈s.processed:=by
  rw[hprocessed]
  exact mem_cons_self
 have htrue:=hfind 1 hmem (blockOf 2 12) rfl 2 mem_cons_self 1000 (by decide)
 rw[show (blockOf 2 12).number=2 from rfl,htest] at htrue
 exact Bool.false_ne_true htrue

/-- A single worker imports the first block. -/
def alone:List Event:=replicate 13 (.work 0)

theorem findable_of_careful_alone :
    Careful hashOf (fun _ _ => 0) batch (begun 1) alone ∧
    ∃ s, finished 1 alone = some s ∧ s.processed = [0] ∧ Findable hashOf batch s := by
 have hcareful:Careful hashOf (fun _ _=>0) batch (begun 1) alone:=
  careful_of_single (importOk_start _ _ _ _ 1) rfl trivial alone
 have hrun:(finished 1 alone).map ImportState.processed=some [0]:=by decide +kernel
 obtain⟨s,hs,hprocessed⟩:=map_eq_some_iff.1 hrun
 exact⟨hcareful,s,hs,hprocessed,findable_of_careful _ _ _ _ 1 alone s hcareful hs⟩

end TwoWorkers

end GoCoupe.ReceiptChainImport
