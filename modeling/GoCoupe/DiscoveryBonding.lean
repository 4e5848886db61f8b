import GoCoupe.GuardedRuns
import GoCoupe.CommonTypes

/-!
# Bonding in the discovery protocol

The packet handlers of `p2p/discover/udp.go`, the bonding processes, bucket updates and lookups
of `table.go`, and the node database, which outlives a restart. A packet comes with the
identity that its signature recovers to and any source address.
-/

namespace GoCoupe.DiscoveryBonding
open Function

variable (ι α:Type)

structure Node where
 id:ι
 addr:α
 tcp:UInt16
 deriving DecidableEq,Repr

/-- A packet, with what its handler reads. Times are seconds. -/
inductive Packet where
 | ping (fromTCP:UInt16) (expiration:UInt64)
 | pong (replyTok:Bytes) (expiration:UInt64)
 | findnode (target:ι) (expiration:UInt64)
 | neighbors (nodes:List (Node ι α)) (expiration:UInt64)
 deriving DecidableEq,Repr

inductive Sent where
 | ping (hash:Bytes)
 | pong (replyTok:Bytes)
 | findnode (target:ι)
 | neighbors (nodes:List (Node ι α))
 deriving DecidableEq,Repr

inductive Event where
 | received (src:α) (id:ι) (p:Packet ι α)
 | sent (dst:α) (p:Sent ι α)
 deriving DecidableEq,Repr

structure Record where
 node:Option (Node ι α)
 lastPong:ℤ
 findFails:ℤ
 deriving DecidableEq,Repr

structure Entry where
 node:Node ι α
 contested:Bool
 deriving DecidableEq,Repr

inductive PacketType where
 | ping
 | pong
 | neighbors
 deriving DecidableEq,Repr

inductive Owner where
 | bond (k:ℕ)
 | eviction (k:ℕ)
 | query (k:ℕ)
 deriving DecidableEq,Repr

structure Pending where
 id:ι
 ptype:PacketType
 owner:Owner
 deriving DecidableEq,Repr

/-- Where `bond` stands. `joined` waits for another process, `registered` for a bonding slot,
`pinging` for the pong and `waitping` for a ping. `ponged`, `waited` and `failed` have been told
the result, and `finished` and `returned` have the node of a bonding that succeeded. -/
inductive BondPc where
 | start
 | joined (k:ℕ)
 | registered
 | pinging
 | ponged
 | waitping
 | waited
 | failed
 | finished (n:Option (Node ι α))
 | returned (n:Option (Node ι α))
 deriving DecidableEq,Repr

/-- A call of `bond`; `known` is the node that it found in the database. -/
structure Bond where
 pinged:Bool
 id:ι
 addr:α
 tcp:UInt16
 known:Option (Node ι α)
 pc:BondPc ι α
 deriving DecidableEq,Repr

/-- Whether a process still waits and, if not, whether it was answered. -/
inductive Reply where
 | awaited
 | answered
 | timedOut
 | over
 deriving DecidableEq,Repr

/-- The rest of `Table.add` when the bucket is full: the oldest node is pinged. -/
structure Eviction where
 new:Node ι α
 oldest:Node ι α
 reply:Reply
 deriving DecidableEq,Repr

structure Query where
 node:Node ι α
 received:ℕ
 nodes:List (Node ι α)
 reply:Reply
 deriving DecidableEq,Repr

structure Params where
 self:ι
 logdist:ι→ℕ
 distcmp:ι→ι→ι→Ordering
 validAddr:α→Bool
 maxNeighbors:ℕ

structure Discovery where
 db:ι→Record ι α
 buckets:ℕ→List (Entry ι α)
 plist:List (Pending ι)
 bonding:ι→Option ℕ
 slots:ℕ
 bonds:List (Bond ι α)
 evictions:List (Eviction ι α)
 queries:List (Query ι α)
 log:List (Event ι α)

variable {ι α:Type}

def bucketSize:ℕ:=16
def nBuckets:ℕ:=257
def maxBondingPingPongs:ℕ:=16
def maxFindnodeFailures:ℤ:=5
def nodeDBNodeExpiration:ℤ:=24*60*60

def fresh (ι α:Type):Discovery ι α:=
 ⟨fun _=>⟨none,0,0⟩,fun _=>[],[],fun _=>none,maxBondingPingPongs,[],[],[],[]⟩

def expired (now:ℤ) (ts:UInt64):Bool:=ts.toInt64.toInt<now

def send (dst:α) (p:Sent ι α) (s:Discovery ι α):Discovery ι α:=
 {s with log:=s.log++[.sent dst p]}

variable [DecidableEq ι]

def updateRecord (id:ι) (f:Record ι α→Record ι α) (s:Discovery ι α):Discovery ι α:=
 {s with db:=update s.db id (f (s.db id))}

def push (P:Params ι α) (target:ι) (entries:List (Node ι α)) (n:Node ι α):List (Node ι α):=
 let ix:=(entries.takeWhile (P.distcmp target ·.id n.id≠.gt)).length
 (entries.insertIdx ix n).take bucketSize

def closest (P:Params ι α) (s:Discovery ι α) (target:ι):List (Node ι α):=
 ((List.range nBuckets).flatMap s.buckets).foldl (fun es e=>push P target es e.node) []

def updateBucket (P:Params ι α) (id:ι) (f:List (Entry ι α) → List (Entry ι α))
 (s:Discovery ι α):Discovery ι α:=
 {s with buckets:=update s.buckets (P.logdist id) (f (s.buckets (P.logdist id)))}

/-- `bucket.bump`, for a node that is in the bucket. -/
def bump (n:Node ι α) (b:List (Entry ι α)):List (Entry ι α):=
 ⟨n,false⟩::b.eraseP (·.node.id=n.id)

def replace (n:Node ι α) (last:Option (Node ι α)) (b:List (Entry ι α)):List (Entry ι α):=
 if b.any (·.node.id=n.id) then b
 else if b.length=bucketSize ∧ (last.map Node.id≠b.getLast?.map (·.node.id)) then b
 else (⟨n,false⟩::b).take bucketSize

def pending (id:ι) (ptype:PacketType) (owner:Owner) (s:Discovery ι α):Discovery ι α:=
 {s with plist:=s.plist++[⟨id,ptype,owner⟩]}

/-- `Table.add`; `hash` is that of the ping to the oldest node of a full bucket. -/
def add (P:Params ι α) (hash:Bytes) (n:Node ι α) (s:Discovery ι α):Discovery ι α:=
 let b:=s.buckets (P.logdist n.id)
 if b.any (·.node.id=n.id) then updateBucket P n.id (bump n) s
 else
  match b.getLast? with
  | none=>updateBucket P n.id (replace n none) s
  | some oldest=>
   if b.length≠bucketSize then updateBucket P n.id (replace n none) s
   else if oldest.contested then s
   else
    let s:=updateBucket P n.id (·.dropLast++[{oldest with contested:=true}]) s
    let s:=pending oldest.node.id .pong (.eviction s.evictions.length) s
    let s:={s with evictions:=s.evictions++[⟨n,oldest.node,.awaited⟩]}
    send oldest.node.addr (.ping hash) s

/-- `Table.stuff` for one node. -/
def stuff (P:Params ι α) (s:Discovery ι α) (n:Node ι α):Discovery ι α:=
 let b:=s.buckets (P.logdist n.id)
 if n.id=P.self ∨ b.any (·.node.id=n.id) ∨ bucketSize≤b.length then s
 else updateBucket P n.id (· ++ [⟨n,false⟩]) s

def goBond (pinged:Bool) (id:ι) (addr:α) (tcp:UInt16) (s:Discovery ι α):Discovery ι α:=
 {s with bonds:=s.bonds++[⟨pinged,id,addr,tcp,none,.start⟩]}

/-- What a bonding process learns from a reply, or from waiting in vain. -/
def BondPc.told (pc:BondPc ι α) (ptype:PacketType) (answered:Bool):BondPc ι α:=
 match pc,ptype with
 | .pinging,.pong=>if answered then .ponged else .failed
 | .waitping,.ping=>.waited
 | pc,_=>pc

def Reply.told (r:Reply) (answered:Bool):Reply:=
 if r=.awaited then (if answered then .answered else .timedOut) else r

def tell (p:Pending ι) (answered:Bool) (s:Discovery ι α):Discovery ι α:=
 match p.owner with
 | .bond k=>{s with bonds:=s.bonds.modify k (fun b=>
  {b with pc:=b.pc.told p.ptype answered})}
 | .eviction k=>{s with evictions:=s.evictions.modify k (fun e=>
  {e with reply:=e.reply.told answered})}
 | .query k=>{s with queries:=s.queries.modify k (fun q=>
  {q with reply:=q.reply.told answered})}

/-- The callback of a pending reply, and whether it is done. -/
def callback (P:Params ι α) (p:Pending ι) (data:Packet ι α) (s:Discovery ι α):Bool × Discovery ι α:=
 match p.owner,data with
 | .query k,.neighbors nodes _=>
  let s:={s with queries:=s.queries.modify k (fun q=>
   {q with
    received:=q.received+nodes.length
    nodes:=q.nodes++nodes.filter (P.validAddr ·.addr)})}
  (s.queries[k]?.any (bucketSize≤·.received),s)
 | _,_=>(true,s)

/-- The loop of `udp.loop` over the queue on a reply. An entry that is done is removed, after
which the element has no successor and the loop is over. -/
def dispatch (P:Params ι α) (id:ι) (ptype:PacketType) (data:Packet ι α)
 (s:Discovery ι α):List (Pending ι) → List (Pending ι)→Bool × Discovery ι α
 | before,[]=>(before.any (fun p=>p.id=id ∧ p.ptype=ptype),s)
 | before,p::rest=>
  if p.id=id ∧ p.ptype=ptype then
   match callback P p data s with
   | (true,s)=>(true,tell p true {s with plist:=before++rest})
   | (false,s)=>dispatch P id ptype data s (before++[p]) rest
  else dispatch P id ptype data s (before++[p]) rest

def handleReply (P:Params ι α) (id:ι) (ptype:PacketType) (data:Packet ι α)
 (s:Discovery ι α):Bool × Discovery ι α:=dispatch P id ptype data s [] s.plist

/-- The neighbors packets, each of at most `maxNeighbors` nodes. -/
def sendNeighbors (P:Params ι α) (dst:α):
 List (Node ι α) → List (Node ι α)→Discovery ι α→Discovery ι α
 | _,[],s=>s
 | chunk,n::rest,s=>
  let chunk:=chunk++[n]
  if chunk.length=P.maxNeighbors ∨ rest=[] then
   sendNeighbors P dst [] rest (send dst (.neighbors chunk) s)
  else sendNeighbors P dst chunk rest s

variable [DecidableEq α]

/-- The handlers of the packets; `mac` is the hash of the packet. -/
def handle (P:Params ι α) (now:ℤ) (src:α) (id:ι) (mac:Bytes) (s:Discovery ι α):
 Packet ι α→Discovery ι α
 | .ping fromTCP expiration=>
  if expired now expiration then s
  else
   let s:=send src (.pong mac) s
   match handleReply P id .ping (.ping fromTCP expiration) s with
   | (true,s)=>s
   | (false,s)=>goBond true id src fromTCP s
 | .pong replyTok expiration=>
  if expired now expiration then s
  else (handleReply P id .pong (.pong replyTok expiration) s).2
 | .findnode target expiration=>
  if expired now expiration then s
  else if (s.db id).node=none then s
  else sendNeighbors P src [] (closest P s target) s
 | .neighbors nodes expiration=>
  if expired now expiration then s
  else (handleReply P id .neighbors (.neighbors nodes expiration) s).2

/-- What can happen. The hash of a ping that is sent is given with the action. -/
inductive Action (ι α:Type) where
 | packet (now:ℤ) (src:α) (id:ι) (mac:Bytes) (p:Packet ι α)
 | bond (n:Node ι α)
 | begin (k:ℕ) (now:ℤ)
 | takeSlot (k:ℕ) (hash:Bytes)
 | resume (k:ℕ) (now:ℤ)
 | join (k:ℕ)
 | finish (k:ℕ) (hash:Bytes)
 | evict (k:ℕ) (now:ℤ)
 | query (n:Node ι α) (target:ι)
 | queried (k:ℕ)
 | timeout (j:ℕ)
 | expire (id:ι) (now:ℤ)
 | stuff (nodes:List (Node ι α))
 | restart

def setBond (k:ℕ) (b:Bond ι α) (s:Discovery ι α):Discovery ι α:={s with bonds:=s.bonds.set k b}

/-- The beginning of `bond`: a node that is well known is only added to the table. -/
def beginBond (k:ℕ) (b:Bond ι α) (now:ℤ) (s:Discovery ι α):Discovery ι α:=let r:=s.db b.id
 let b:={b with known:=r.node}
 if r.node=none ∨ 0<r.findFails ∨ nodeDBNodeExpiration<now-r.lastPong then
  match s.bonding b.id with
  | some j=>setBond k {b with pc:=.joined j} s
  | none=>
   {setBond k {b with pc:=.registered} s with
    bonding:=update s.bonding b.id (some k)}
 else setBond k {b with pc:=.finished none} s

/-- The end of `pingpong`: the process is unregistered and gives its slot back. -/
def endPingpong (k:ℕ) (b:Bond ι α) (n:Option (Node ι α)) (s:Discovery ι α):Discovery ι α:=
 {setBond k {b with pc:=.finished n} s with
  slots:=s.slots+1
  bonding:=update s.bonding b.id none}

def bonded (k:ℕ) (b:Bond ι α) (s:Discovery ι α):Discovery ι α:=
 let n:Node ι α:=⟨b.id,b.addr,b.tcp⟩
 endPingpong k b (some n) (updateRecord b.id ({· with node:=some n}) s)

/-- `pingpong` after the process has been told. -/
def resumeBond (k:ℕ) (b:Bond ι α) (now:ℤ) (s:Discovery ι α):Option (Discovery ι α):=
 match b.pc with
 | .ponged=>
  let s:=updateRecord b.id ({· with lastPong:=now}) s
  if b.pinged then some (bonded k b s)
  else some (pending b.id .ping (.bond k) (setBond k {b with pc:=.waitping} s))
 | .waited=>some (bonded k b s)
 | .failed=>some (endPingpong k b none s)
 | _=>none

/-- The result of a bonding process that has come to its end. -/
def BondPc.result:BondPc ι α→Option (Option (Node ι α))
 | .finished n | .returned n=>some n
 | _=>none

/-- The end of `bond`: a node that was bonded or known is added to the table. -/
def finishBond (P:Params ι α) (k:ℕ) (b:Bond ι α) (n:Option (Node ι α)) (hash:Bytes)
 (s:Discovery ι α):Discovery ι α:=
 let s:=setBond k {b with pc:=.returned n} s
 match n.or b.known with
 | none=>s
 | some node=>updateRecord b.id ({· with findFails:=0}) (add P hash node s)

def endEviction (P:Params ι α) (k:ℕ) (e:Eviction ι α) (now:ℤ) (s:Discovery ι α):
 Option (Discovery ι α):=
 let calm:=updateBucket P e.oldest.id
  (·.map (fun x=>if x.node.id=e.oldest.id then {x with contested:=false} else x))
 let s':={s with evictions:=s.evictions.set k {e with reply:=.over}}
 match e.reply with
 | .answered=>
  some (calm (updateRecord e.oldest.id ({· with lastPong:=now}) s'))
 | .timedOut=>some (updateBucket P e.new.id (replace e.new (some e.oldest)) (calm s'))
 | _=>none

/-- A lookup's query is over: a failure is counted, and the nodes received are bonded with. -/
def endQuery (P:Params ι α) (k:ℕ) (q:Query ι α) (s:Discovery ι α):Option (Discovery ι α):=
 let bondall:=fun s=>q.nodes.foldl (fun s n=>goBond false n.id n.addr n.tcp s) s
 let s':={s with queries:=s.queries.set k {q with reply:=.over}}
 match q.reply with
 | .answered=>some (bondall s')
 | .timedOut=>
  let fails:=(s.db q.node.id).findFails+1
  let s':=updateRecord q.node.id ({· with findFails:=fails}) s'
  some (bondall (if maxFindnodeFailures≤fails then
   updateBucket P q.node.id (·.eraseP (·.node.id=q.node.id)) s' else s'))
 | _=>none

def step (P:Params ι α) (s:Discovery ι α):Action ι α→Option (Discovery ι α)
 | .packet now src id mac p=>
  some (handle P now src id mac {s with log:=s.log++[.received src id p]} p)
 | .bond n=>some (goBond false n.id n.addr n.tcp s)
 | .begin k now=>s.bonds[k]?.bind (fun b=>
  if b.pc=.start then some (beginBond k b now s) else none)
 | .takeSlot k hash=>s.bonds[k]?.bind (fun b=>
  if b.pc=.registered ∧ 0 < s.slots then
   some (send b.addr (.ping hash) (pending b.id .pong (.bond k)
    {setBond k {b with pc:=.pinging} s with slots:=s.slots-1}))
  else none)
 | .resume k now=>s.bonds[k]?.bind (resumeBond k · now s)
 | .join k=>s.bonds[k]?.bind (fun b=>
  match b.pc with
  | .joined j=>(s.bonds[j]?.bind (·.pc.result)).map (fun n=>
   setBond k {b with pc:=.finished n} s)
  | _=>none)
 | .finish k hash=>s.bonds[k]?.bind (fun b=>
  match b.pc with
  | .finished n=>some (finishBond P k b n hash s)
  | _=>none)
 | .evict k now=>s.evictions[k]?.bind (endEviction P k · now s)
 | .query n target=>
  some (send n.addr (.findnode target) (pending n.id .neighbors (.query s.queries.length)
   {s with queries:=s.queries++[⟨n,0,[],.awaited⟩]}))
 | .queried k=>s.queries[k]?.bind (endQuery P k · s)
 | .timeout j=>s.plist[j]?.map (tell · false {s with plist:=s.plist.eraseIdx j})
 | .expire id now=>
  if (s.db id).node≠none ∧ (id=P.self ∨ nodeDBNodeExpiration≤now-(s.db id).lastPong) then
   some (updateRecord id (fun _=>⟨none,0,0⟩) s)
  else none
 | .stuff nodes=>some (nodes.foldl (stuff P) s)
 | .restart=>some {fresh ι α with db:=s.db,log:=s.log}

end GoCoupe.DiscoveryBonding
