import GoCoupe.GuardedRuns
import GoCoupe.MapIteration
import Mathlib.Logic.Function.Basic

/-!
# The block fetcher

The loop of `eth/fetcher/fetcher.go`, with the goroutines that import blocks and the handler of
`eth/handler.go` that announces hashes. What the loop learns from outside (the time, the chain,
random choices, the order of a map) is part of the actions. Requests and broadcasts change
nothing here and are left out.
-/

namespace GoCoupe.BlockFetching
open MapIteration

def arriveTimeout:ℤ:=500000000
def gatherSlack:ℤ:=100000000
def fetchTimeout:ℤ:=5000000000
def maxUncleDist:UInt64:=7
def hashLimit:ℤ:=256
def blockLimit:ℤ:=64

structure Announce (H ι Hd:Type) where
 hash:H
 number:UInt64
 header:Option Hd
 time:ℤ
 origin:ι
 deriving DecidableEq

structure Block (Hd T:Type) where
 header:Hd
 transactions:List T
 uncles:List Hd
 deriving DecidableEq

structure Inject (ι Hd T:Type) where
 origin:ι
 block:Block Hd T
 deriving DecidableEq

inductive Verdict where
 | valid
 | future
 | invalid
 deriving DecidableEq

structure Params (W H Hd T:Type) where
 hash:Hd→H
 number:Hd→UInt64
 parentHash:Hd→H
 txHash:Hd→H
 uncleHash:Hd→H
 deriveSha:List T→H
 calcUncleHash:List Hd→H
 validateBlock:W→Hd→Hd→Verdict
 rank:UInt64→ℕ

inductive Phase where
 | expiring
 | importing (height:UInt64)
 | selecting
 deriving DecidableEq

/-- The fetcher, the handlers waiting in `Notify` and in `Enqueue`, the goroutines that import and
those that wait to report the end, and the peers that were dropped. A missing counter is zero. -/
structure Fetcher (H ι Hd T:Type) where
 announces:ι→ℤ
 announced:GoMap H (List (Announce H ι Hd))
 fetching:GoMap H (Announce H ι Hd)
 fetched:GoMap H (List (Announce H ι Hd))
 completing:GoMap H (Announce H ι Hd)
 queue:List (Inject ι Hd T)
 queues:ι→ℤ
 queued:GoMap H (Inject ι Hd T)
 phase:Phase
 notifying:List (ι × H × UInt64)
 injecting:List (Inject ι Hd T)
 inserting:List (Inject ι Hd T)
 finished:List H
 dropped:List ι

def new (H ι Hd T:Type):Fetcher H ι Hd T:=⟨fun _=>0,∅,∅,∅,∅,[],fun _=>0,∅,.expiring,[],[],[],[],[]⟩

/-- A message that announces hashes, without numbers before version 62 of the protocol. -/
inductive NewBlockHashes (H:Type) where
 | hashes (l:List H)
 | blocks (l:List (H × UInt64))

def NewBlockHashes.announces {H:Type}:NewBlockHashes H→List (H × UInt64)
 | .hashes l=>l.map (fun hash=>(hash,0))
 | .blocks l=>l

variable {W H ι Hd T:Type} [DecidableEq H] [DecidableEq ι]

/-- The announcements of a hash, in the order in which they are counted down. -/
def traces (hash:H) (s:Fetcher H ι Hd T):List (Announce H ι Hd):=
 (s.announced.lookup hash).getD []++(s.fetching.lookup hash).toList ++
  (s.fetched.lookup hash).getD []++(s.completing.lookup hash).toList

def decrement (counts:ι→ℤ) (peer:ι):ι→ℤ:=Function.update counts peer (counts peer-1)

def forgetHash (hash:H) (s:Fetcher H ι Hd T):Fetcher H ι Hd T:=
 {s with
  announces:=(traces hash s).foldl (fun counts a=>decrement counts a.origin) s.announces
  announced:=s.announced.erase hash
  fetching:=s.fetching.erase hash
  fetched:=s.fetched.erase hash
  completing:=s.completing.erase hash}

def forgetBlock (hash:H) (s:Fetcher H ι Hd T):Fetcher H ι Hd T:=
 match s.queued.lookup hash with
 | some op=>{s with queues:=decrement s.queues op.origin,queued:=s.queued.erase hash}
 | none=>s

/-- More than `maxUncleDist` behind or more than `maxQueueDist` ahead, as signed numbers. -/
def tooDistant (number height:UInt64):Bool:=
 number.toInt64-height.toInt64 < -7 || number.toInt64-height.toInt64>32

def notify (peer:ι) (hash:H) (number:UInt64) (now:ℤ) (height:UInt64)
 (s:Fetcher H ι Hd T):Fetcher H ι Hd T:=
 let count:=s.announces peer+1
 if count>hashLimit then s
 else if number>0 ∧ tooDistant number height then s
 else if (s.fetching.lookup hash).isSome ∨ (s.completing.lookup hash).isSome then s
 else
  {s with
   announces:=Function.update s.announces peer count
   announced:=s.announced.insert hash
    ((s.announced.lookup hash).getD []++[⟨hash,number,none,now,peer⟩])}

structure Look (H:Type) where
 hash:H
 now:ℤ
 pick:ℕ
 known:Bool

/-- The order in which a loop visits a map. -/
def Visits {β:Type} (visit:List H) (m:GoMap H β):Prop:=visit.Perm m.keys

instance visits_decidable {β:Type} (visit:List H) (m:GoMap H β):
 Decidable (Visits visit m):=inferInstanceAs (Decidable (visit.Perm m.keys))

/-- The announcement to fetch from, when the first one is old enough. -/
def due (look:Look H) (s:Fetcher H ι Hd T):Option (Announce H ι Hd):=
 match s.announced.lookup look.hash with
 | some (first::rest)=>
  if look.now-first.time>arriveTimeout-gatherSlack then
   some ((first::rest).getD look.pick first)
  else none
 | _=>none

def fetch (s:Fetcher H ι Hd T) (look:Look H):Fetcher H ι Hd T:=
 match due look s with
 | some a=>
  let s:=forgetHash look.hash s
  if look.known then s else {s with fetching:=s.fetching.insert look.hash a}
 | none=>s

def complete (s:Fetcher H ι Hd T) (look:Look H):Fetcher H ι Hd T:=
 match s.fetched.lookup look.hash with
 | some (first::rest)=>
  let s:=forgetHash look.hash s
  if look.known then s
  else {s with
   completing:=s.completing.insert look.hash ((first::rest).getD look.pick first)}
 | _=>s

def expire (s:Fetcher H ι Hd T) (look:H × ℤ):Fetcher H ι Hd T:=
 match s.fetching.lookup look.1 with
 | some a=>if look.2-a.time>fetchTimeout then forgetHash look.1 s else s
 | none=>s

variable (P:Params W H Hd T)

def enqueue (height:UInt64) (peer:ι) (block:Block Hd T) (s:Fetcher H ι Hd T):Fetcher H ι Hd T:=
 let hash:=P.hash block.header
 let count:=s.queues peer+1
 if count>blockLimit then forgetHash hash s
 else if tooDistant (P.number block.header) height then forgetHash hash s
 else
  match s.queued.lookup hash with
  | some _=>s
  | none=>
   {s with
    queues:=Function.update s.queues peer count
    queued:=s.queued.insert hash ⟨peer,block⟩
    queue:=s.queue++[⟨peer,block⟩]}

/-- The blocks whose hash is awaited are queued for the peer that announced it. -/
def enqueueAll (awaited:Fetcher H ι Hd T→GoMap H (Announce H ι Hd)) (heights:ℕ→UInt64)
 (blocks:List (Block Hd T)) (s:Fetcher H ι Hd T):Fetcher H ι Hd T:=
 blocks.zipIdx.foldl (fun s b=>
  match (awaited s).lookup (P.hash b.1.header) with
  | some a=>enqueue P (heights b.2) a.origin b.1 s
  | none=>s) s

/-- One turn of the import loop: the next block stays when it is too high, is forgotten when it is
too old or known, and is otherwise handed to a goroutine. -/
def pop (height:UInt64) (k:ℕ) (op:Inject ι Hd T) (known:Bool) (s:Fetcher H ι Hd T):
 Fetcher H ι Hd T:=
 let number:=P.number op.block.header
 if number>height+1 then {s with phase:=.selecting}
 else
  let s:={s with queue:=s.queue.eraseIdx k}
  if number+maxUncleDist<height ∨ known then forgetBlock (P.hash op.block.header) s
  else {s with inserting:=s.inserting++[op]}

/-- The goroutine of `insert`, up to the end of which it then tells the loop. -/
def insert (op:Inject ι Hd T) (parent:Option Hd) (world:W) (s:Fetcher H ι Hd T):Fetcher H ι Hd T:=
 let s:={s with finished:=s.finished++[P.hash op.block.header]}
 match parent with
 | none=>s
 | some parent=>
  if P.validateBlock world op.block.header parent=.invalid then
   {s with dropped:=s.dropped++[op.origin]}
  else s

structure BlockFiltering (H ι Hd T:Type) where
 fetcher:Fetcher H ι Hd T
 explicit:List (Block Hd T)
 download:List (Block Hd T)

def filterBlock (r:BlockFiltering H ι Hd T) (b:Block Hd T × Bool):BlockFiltering H ι Hd T:=
 let hash:=P.hash b.1.header
 if (r.fetcher.fetching.lookup hash).isSome ∧ (r.fetcher.queued.lookup hash).isNone then
  if b.2 then {r with fetcher:=forgetHash hash r.fetcher}
  else {r with explicit:=r.explicit++[b.1]}
 else {r with download:=r.download++[b.1]}

def filterBlocks (batch:List (Block Hd T × Bool)) (heights:ℕ→UInt64)
 (s:Fetcher H ι Hd T):Fetcher H ι Hd T:=
 let r:=batch.foldl (filterBlock P) ⟨s,[],[]⟩
 enqueueAll P (·.fetching) heights r.explicit r.fetcher

structure HeaderFiltering (H ι Hd T:Type) where
 fetcher:Fetcher H ι Hd T
 unknown:List Hd
 incomplete:List (Announce H ι Hd)
 complete:List (Block Hd T)

/-- The announcement on which a header is being fetched. -/
def requested (hash:H) (s:Fetcher H ι Hd T):Option (Announce H ι Hd):=
 if (s.fetched.lookup hash).isNone ∧ (s.completing.lookup hash).isNone ∧
  (s.queued.lookup hash).isNone then s.fetching.lookup hash else none

def filterHeader (time:ℤ) (r:HeaderFiltering H ι Hd T) (b:Hd × Bool):HeaderFiltering H ι Hd T:=
 let hash:=P.hash b.1
 let s:=r.fetcher
 match requested hash s with
 | none=>{r with unknown:=r.unknown++[b.1]}
 | some a=>
  if P.number b.1≠a.number then
   {r with fetcher:=forgetHash hash {s with dropped:=s.dropped++[a.origin]}}
  else if b.2 then {r with fetcher:=forgetHash hash s}
  else
   let a:={a with header:=some b.1,time:=time}
   let s:={s with fetching:=s.fetching.insert hash a}
   if P.txHash b.1=P.deriveSha [] ∧ P.uncleHash b.1=P.calcUncleHash [] then
    {r with
     fetcher:={s with completing:=s.completing.insert hash a}
     complete:=r.complete++[⟨b.1,[],[]⟩]}
   else {r with fetcher:=s,incomplete:=r.incomplete++[a]}

def schedule (s:Fetcher H ι Hd T) (a:Announce H ι Hd):Fetcher H ι Hd T:=
 match a.header with
 | none=>s
 | some header=>
  let hash:=P.hash header
  if (s.completing.lookup hash).isSome then s
  else {s with fetched:=s.fetched.insert hash ((s.fetched.lookup hash).getD []++[a])}

def filterHeaders (time:ℤ) (batch:List (Hd × Bool)) (heights:ℕ→UInt64)
 (s:Fetcher H ι Hd T):Fetcher H ι Hd T:=
 let r:=batch.foldl (filterHeader P time) ⟨s,[],[],[]⟩
 enqueueAll P (·.completing) heights r.complete (r.incomplete.foldl (schedule P) r.fetcher)

structure BodyFiltering (H ι Hd T:Type) where
 fetcher:Fetcher H ι Hd T
 blocks:List (Block Hd T)
 matched:Bool

/-- A body is compared with an entry of `completing`. -/
def matchBody (transactions:List T) (uncles:List Hd) (r:BodyFiltering H ι Hd T)
 (look:H × Bool):BodyFiltering H ι Hd T:=
 match (r.fetcher.completing.lookup look.1).bind (·.header) with
 | none=>r
 | some header=>
  if (r.fetcher.queued.lookup look.1).isNone ∧ P.deriveSha transactions=P.txHash header ∧
   P.calcUncleHash uncles=P.uncleHash header then
   if look.2 then {r with fetcher:=forgetHash look.1 r.fetcher,matched:=true}
   else {r with blocks:=r.blocks++[⟨header,transactions,uncles⟩],matched:=true}
  else r

structure Body (H Hd T:Type) where
 transactions:List T
 uncles:List Hd
 visit:List (H × Bool)

/-- The bodies that match nothing are returned. -/
def matchBodies:List (Body H Hd T)→Fetcher H ι Hd T→List (Block Hd T) →
 Option (Fetcher H ι Hd T × List (Block Hd T) × List (Body H Hd T))
 | [],s,blocks=>some (s,blocks,[])
 | b::rest,s,blocks=>
  if Visits (b.visit.map Prod.fst) s.completing then
   let r:=b.visit.foldl (matchBody P b.transactions b.uncles) ⟨s,blocks,false⟩
   (matchBodies rest r.fetcher r.blocks).map (fun result=>
    (result.1,result.2.1,if r.matched then result.2.2 else b::result.2.2))
  else none

def filterBodies (batch:List (Body H Hd T)) (heights:ℕ→UInt64) (s:Fetcher H ι Hd T):
 Option (Fetcher H ι Hd T):=
 (matchBodies P batch s []).map (fun r=>enqueueAll P (·.completing) heights r.2.1 r.1)

inductive Event (H Hd T:Type) where
 | notify (k:ℕ) (now:ℤ) (height:UInt64)
 | inject (k:ℕ) (height:UInt64)
 | done (k:ℕ)
 | fetchTick (visit:List (Look H))
 | completeTick (visit:List (Look H))
 | blocks (batch:List (Block Hd T × Bool)) (heights:ℕ→UInt64)
 | headers (time:ℤ) (batch:List (Hd × Bool)) (heights:ℕ→UInt64)
 | bodies (batch:List (Body H Hd T)) (heights:ℕ→UInt64)

def handle (P:Params W H Hd T) (s:Fetcher H ι Hd T):Event H Hd T→Option (Fetcher H ι Hd T)
 | .notify k now height=>s.notifying[k]?.map (fun n=>
  notify n.1 n.2.1 n.2.2 now height {s with notifying:=s.notifying.eraseIdx k})
 | .inject k height=>s.injecting[k]?.map (fun op=>
  enqueue P height op.origin op.block {s with injecting:=s.injecting.eraseIdx k})
 | .done k=>s.finished[k]?.map (fun hash=>
  forgetBlock hash (forgetHash hash {s with finished:=s.finished.eraseIdx k}))
 | .fetchTick visit=>
  if Visits (visit.map Look.hash) s.announced then some (visit.foldl fetch s) else none
 | .completeTick visit=>
  if Visits (visit.map Look.hash) s.fetched then some (visit.foldl complete s) else none
 | .blocks batch heights=>some (filterBlocks P batch heights s)
 | .headers time batch heights=>some (filterHeaders P time batch heights s)
 | .bodies batch heights=>filterBodies P batch heights s

/-- Messages that announce hashes or bring a block, the parts of a turn of the loop, and the
goroutines that import. -/
inductive Action (W H ι Hd T:Type) where
 | newBlockHashes (peer:ι) (message:NewBlockHashes H) (known:H→Bool)
 | newBlock (peer:ι) (block:Block Hd T)
 | insert (k:ℕ) (parent:Option Hd) (world:W)
 | expire (visit:List (H × ℤ)) (height:UInt64)
 | pop (k:ℕ) (known:Bool)
 | select
 | event (e:Event H Hd T)

def step (P:Params W H Hd T) (s:Fetcher H ι Hd T):Action W H ι Hd T→Option (Fetcher H ι Hd T)
 | .newBlockHashes peer message known=>
  some {s with
   notifying:=s.notifying ++ (message.announces.filter (!known ·.1)).map (fun b=>(peer,b))}
 | .newBlock peer block=>some {s with injecting:=s.injecting++[⟨peer,block⟩]}
 | .insert k parent world=>s.inserting[k]?.bind (fun op=>
  if ∀header∈parent,P.hash header=P.parentHash op.block.header then
   some (insert P op parent world {s with inserting:=s.inserting.eraseIdx k})
  else none)
 | .expire visit height=>
  if s.phase=.expiring ∧ Visits (visit.map Prod.fst) s.fetching then
   some {visit.foldl expire s with phase:=.importing height}
  else none
 | .pop k known=>
  match s.phase with
  | .importing height=>s.queue[k]?.bind (fun op=>
   if ∀other∈s.queue,P.rank (P.number op.block.header)≤P.rank (P.number other.block.header) then
    some (pop P height k op known s)
   else none)
  | _=>none
 | .select=>
  match s.phase with
  | .importing _=>if s.queue.isEmpty then some {s with phase:=.selecting} else none
  | _=>none
 | .event e=>
  if s.phase=.selecting then (handle P s e).map ({· with phase:=.expiring})
  else none

/-- Headers are numbers, and a header is valid after the number before it. -/
def sampleParams:Params Unit ℕ ℕ ℕ where
 hash:=id
 number:=UInt64.ofNat
 parentHash header:=header-1
 txHash:=id
 uncleHash:=id
 deriveSha _:=0
 calcUncleHash _:=0
 validateBlock _ header parent:=if header=parent+1 then .valid else .invalid
 rank:=UInt64.toNat

/-- Peer 1 announces block 5, which is due half a second later. -/
def announceFive (message:NewBlockHashes ℕ) (known:Bool):List (Action Unit ℕ ℕ ℕ ℕ):=
 [.newBlockHashes 1 message (fun _=>false),.expire [] 0,.select,.event (.notify 0 0 0),
  .expire [] 0,.select,.event (.fetchTick [⟨5,500000000,0,known⟩])]

end GoCoupe.BlockFetching
