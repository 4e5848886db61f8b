import GoCoupe.GuardedRuns
import GoCoupe.MapIteration

/-!
# Stopping the server

The goroutines of `p2p/server.go` around `Server.Stop`: `run`, `listenLoop`, any number of
`setupConn` and `runPeer`, and callers. The channels have no buffer, so sending and receiving
are one action of two goroutines. `Stop` keeps the lock until it returns; every other section
under the lock is a single action.
-/

namespace GoCoupe.ServerStopping
open MapIteration

inductive Stage where
 | posthandshake
 | addpeer
 deriving DecidableEq,Repr

inductive DiscReason where
 | tooManyPeers
 | alreadyConnected
 | self
 | uselessPeer
 deriving DecidableEq,Repr

/-- Where `setupConn` stands. `sending` and `waiting` are the two selects of `checkpoint`; the
last two have returned. -/
inductive ConnPc where
 | start
 | encHandshake
 | sending (stage:Stage)
 | waiting (stage:Stage)
 | protoHandshake
 | closed
 | established
 deriving DecidableEq,Repr

/-- A connection that is set up. `matching` is the number of matching protocols, and `slot` says
that it has one of the slots of `listenLoop`. -/
structure Conn (ι:Type) where
 pc:ConnPc
 id:ι
 dialDest:Option ι
 trusted:Bool
 static:Bool
 matching:ℕ
 slot:Bool
 deriving DecidableEq,Repr

inductive Count where
 | asking
 | waiting
 | counted
 deriving DecidableEq,Repr

/-- Where `runPeer` stands. `running` is the loop of `Peer.run`, `closing` what follows it and
`leaving` the send on `delpeer`. -/
inductive ProcPc where
 | counting (c:Count)
 | running
 | closing
 | leaving
 | recounting (c:Count)
 deriving DecidableEq,Repr

structure Proc (ι:Type) where
 id:ι
 pc:ProcPc
 deriving DecidableEq,Repr

/-- Where `Stop` stands. `closing` has taken the lock, `waiting` has closed `quit`. -/
inductive StopPc where
 | start
 | closing
 | waiting
 | returned
 deriving DecidableEq,Repr

inductive Caller where
 | stop (pc:StopPc)
 | peerCount (c:Count)
 | addPeer (returned:Bool)
 | self (returned:Bool)
 deriving DecidableEq,Repr

/-- A goroutine that may call `PeerCount`. -/
inductive Counter where
 | caller (i:ℕ)
 | proc (k:ℕ)
 deriving DecidableEq,Repr

/-- Where `run` stands. `checking` has received a connection, `answering` sends on its `cont` and
`answeringOp` on `peerOpDone`, after the operation of the given goroutine. -/
inductive RunPc where
 | selecting
 | checking (stage:Stage) (i:ℕ)
 | answering (stage:Stage) (i:ℕ) (err:Option DiscReason)
 | answeringOp (w:Counter)
 | closingTable
 | disconnecting (left:List ℕ)
 | draining
 | ended
 deriving DecidableEq,Repr

inductive ListenPc where
 | waitingSlot
 | accepting
 | ended
 deriving DecidableEq,Repr

structure Config (ι:Type) where
 self:ι
 maxPeers:ℤ
 protocols:ℕ
 trusted:List ι

/-- `lock` is the `Stop` that has the lock, `peers` the map of `run` into the `runPeer`s. -/
structure Server (ι:Type) where
 lock:Option ℕ
 running:Bool
 listening:Bool
 quit:Bool
 run:RunPc
 peers:GoMap ι ℕ
 listen:ListenPc
 slots:ℕ
 conns:List (Conn ι)
 procs:List (Proc ι)
 callers:List Caller

/-- The server after `Start`, with a listener or without. -/
def started (ι:Type) (listens:Bool) (slots:ℕ):Server ι where
 lock:=none
 running:=true
 listening:=listens
 quit:=false
 run:=.selecting
 peers:=∅
 listen:=if listens then .waitingSlot else .ended
 slots:=slots
 conns:=[]
 procs:=[]
 callers:=[]

inductive ConnMove (ι:Type) where
 | begin
 | encHandshake (id:Option ι)
 | protoHandshake (result:Option (ι × ℕ))
 | giveUp
 deriving DecidableEq,Repr

inductive ProcMove where
 | quit
 | run
 | failed
 | closed
 deriving DecidableEq,Repr

/-- What can happen. `accept` and `dial` bring a new connection, `call` a new caller. -/
inductive Action (ι:Type) where
 | conn (i:ℕ) (m:ConnMove ι)
 | proc (k:ℕ) (m:ProcMove)
 | caller (i:ℕ)
 | stop (i:ℕ)
 | closeQuit (i:ℕ)
 | stopped (i:ℕ)
 | quitHeard
 | opHeard (w:Counter)
 | opDone (w:Counter)
 | staticHeard (i:ℕ)
 | connHeard (i:ℕ)
 | check
 | answered
 | delHeard (k:ℕ)
 | tableClosed (order:List (Σ _:ι,ℕ))
 | disconnect
 | drain
 | runEnded
 | takeSlot
 | accept
 | acceptFailed
 | giveSlot (i:ℕ)
 | dial (dest:ι) (static:Bool)
 | call (c:Caller)

variable {ι:Type} [DecidableEq ι] [Inhabited ι]

/-- The last case asks for the lock. -/
def encHandshakeChecks (cfg:Config ι) (self:ι) (peers:GoMap ι ℕ) (c:Conn ι):Option DiscReason:=
 if ¬(c.trusted ∨ c.static) ∧ cfg.maxPeers≤peers.entries.length then some .tooManyPeers
 else if (peers.lookup c.id).isSome then some .alreadyConnected
 else if c.id=self then some .self
 else none

def protoHandshakeChecks (cfg:Config ι) (self:ι) (peers:GoMap ι ℕ) (c:Conn ι):Option DiscReason:=
 if 0<cfg.protocols ∧ c.matching=0 then some .uselessPeer
 else encHandshakeChecks cfg self peers c

def checks (cfg:Config ι) (self:ι) (peers:GoMap ι ℕ) (c:Conn ι):Stage→Option DiscReason
 | .posthandshake=>encHandshakeChecks cfg self peers c
 | .addpeer=>protoHandshakeChecks cfg self peers c

/-- The checks come to the case that calls `Self`. -/
def CallsSelf (cfg:Config ι) (stage:Stage) (peers:GoMap ι ℕ) (c:Conn ι):Prop:=
 ¬(stage=.addpeer ∧ 0<cfg.protocols ∧ c.matching=0) ∧
 ¬(¬(c.trusted ∨ c.static) ∧ cfg.maxPeers≤peers.entries.length) ∧
 (peers.lookup c.id).isSome=false

instance callsSelf_decidable (cfg:Config ι) (stage:Stage) (peers:GoMap ι ℕ) (c:Conn ι):
 Decidable (CallsSelf cfg stage peers c):=inferInstanceAs (Decidable (_ ∧ _ ∧ _))

/-- The moves of `setupConn` other than its meetings with `run`. -/
def Conn.move (s:Server ι) (c:Conn ι):ConnMove ι→Option (Conn ι)
 | .begin=>
  if c.pc=.start ∧ s.lock=none then
   some {c with pc:=if s.running then .encHandshake else .closed}
  else none
 | .encHandshake none=>
  if c.pc=.encHandshake then some {c with pc:=.closed} else none
 | .encHandshake (some id)=>
  if c.pc=.encHandshake then
   some {c with
    id:=id
    pc:=if ∀dest∈c.dialDest,dest=id then .sending .posthandshake else .closed}
  else none
 | .protoHandshake none=>
  if c.pc=.protoHandshake then some {c with pc:=.closed} else none
 | .protoHandshake (some (id,matching))=>
  if c.pc=.protoHandshake then
   some {c with
    matching:=if id=c.id then matching else c.matching
    pc:=if id=c.id then .sending .addpeer else .closed}
  else none
 | .giveUp=>
  match c.pc with
  | .sending _ | .waiting _=>if s.quit then some {c with pc:=.closed} else none
  | _=>none

/-- A connection that is received by `run`, which sets the trusted flag in the first stage. -/
def Conn.heard (cfg:Config ι) (c:Conn ι):Option (Stage × Conn ι):=
 match c.pc with
 | .sending .posthandshake=>some (.posthandshake,
  {c with pc:=.waiting .posthandshake,trusted:=c.trusted || decide (c.id∈cfg.trusted)})
 | .sending .addpeer=>some (.addpeer,{c with pc:=.waiting .addpeer})
 | _=>none

def Conn.answer (c:Conn ι) (err:Option DiscReason):Stage → Conn ι
 | .posthandshake=>{c with pc:=if err=none then .protoHandshake else .closed}
 | .addpeer=>{c with pc:=if err=none then .established else .closed}

def Count.ask:Count→Option Count
 | .asking=>some .waiting
 | _=>none

def Count.answer:Count→Option Count
 | .waiting=>some .counted
 | _=>none

/-- `PeerCount` returns since `quit` is closed. -/
def Count.give (quit:Bool):Count→Option Count
 | .asking=>if quit then some .counted else none
 | _=>none

/-- A step of the call of `PeerCount` that `runPeer` is in. -/
def Proc.count (f:Count→Option Count) (p:Proc ι):Option (Proc ι):=
 match p.pc with
 | .counting c=>(f c).map ({p with pc:=.counting ·})
 | .recounting c=>(f c).map ({p with pc:=.recounting ·})
 | _=>none

def Proc.move (quit:Bool) (p:Proc ι):ProcMove→Option (Proc ι)
 | .quit=>p.count (Count.give quit)
 | .run=>if p.pc=.counting .counted then some {p with pc:=.running} else none
 | .failed=>if p.pc=.running then some {p with pc:=.closing} else none
 | .closed=>if p.pc=.closing then some {p with pc:=.leaving} else none

/-- `Peer.Disconnect` returns when the loop of `Peer.run` takes the reason or is over. -/
def Proc.disconnect (p:Proc ι):Option (Proc ι):=
 match p.pc with
 | .counting _=>none
 | .running=>some {p with pc:=.closing}
 | _=>some p

def Caller.count (f:Count→Option Count):Caller→Option Caller
 | .peerCount c=>(f c).map .peerCount
 | _=>none

/-- The moves of callers other than `Stop` that `run` has no part in. -/
def Caller.move (s:Server ι):Caller→Option Caller
 | .peerCount c=>(c.give s.quit).map .peerCount
 | .addPeer false=>if s.quit then some (.addPeer true) else none
 | .self false=>if s.lock=none then some (.self true) else none
 | _=>none

def Caller.Fresh (c:Caller):Prop:=
 c=.stop .start ∨ c=.peerCount .asking ∨ c=.addPeer false ∨ c=.self false

instance fresh_decidable (c:Caller):Decidable c.Fresh:=inferInstanceAs (Decidable (_ ∨ _ ∨ _ ∨ _))

def Server.count (s:Server ι) (f:Count→Option Count):Counter→Option (Server ι)
 | .caller i=>(s.callers[i]?.bind (Caller.count f)).map
  ({s with callers:=s.callers.set i ·})
 | .proc k=>(s.procs[k]?.bind (Proc.count f)).map
  ({s with procs:=s.procs.set k ·})

/-- The end of a check: a connection that passes the second one becomes a peer. -/
def Server.checked (s:Server ι) (c:Conn ι) (stage:Stage) (i:ℕ) (err:Option DiscReason):Server ι:=
 if stage=.addpeer ∧ err=none then
  {s with
   run:=.answering stage i err
   peers:=s.peers.insert c.id s.procs.length
   procs:=s.procs++[⟨c.id,.counting .asking⟩]}
 else {s with run:=.answering stage i err}

/-- The identity that `Self` returns: of an empty node when the server is not running. -/
def Server.selfId (cfg:Config ι) (s:Server ι):ι:=if s.running then cfg.self else default

def step (cfg:Config ι) (s:Server ι):Action ι→Option (Server ι)
 | .conn i m=>(s.conns[i]?.bind (Conn.move s · m)).map
  ({s with conns:=s.conns.set i ·})
 | .proc k m=>(s.procs[k]?.bind (Proc.move s.quit · m)).map
  ({s with procs:=s.procs.set k ·})
 | .caller i=>(s.callers[i]?.bind (Caller.move s)).map
  ({s with callers:=s.callers.set i ·})
 | .stop i=>
  if s.callers[i]?=some (.stop .start) ∧ s.lock=none then
   if s.running then
    some {s with
     lock:=some i,running:=false,listening:=false
     callers:=s.callers.set i (.stop .closing)}
   else some {s with callers:=s.callers.set i (.stop .returned)}
  else none
 | .closeQuit i=>
  if s.callers[i]?=some (.stop .closing) then
   some {s with quit:=true,callers:=s.callers.set i (.stop .waiting)}
  else none
 | .stopped i=>
  if s.callers[i]?=some (.stop .waiting) ∧ s.run=.ended ∧ s.listen=.ended then
   some {s with lock:=none,callers:=s.callers.set i (.stop .returned)}
  else none
 | .quitHeard=>
  if s.run=.selecting ∧ s.quit then some {s with run:=.closingTable} else none
 | .opHeard w=>
  if s.run=.selecting then
   (s.count Count.ask w).map ({· with run:=.answeringOp w})
  else none
 | .opDone w=>
  match s.run with
  | .answeringOp _=>(s.count Count.answer w).map ({· with run:=.selecting})
  | _=>none
 | .staticHeard i=>
  if s.run=.selecting ∧ s.callers[i]?=some (.addPeer false) then
   some {s with callers:=s.callers.set i (.addPeer true)}
  else none
 | .connHeard i=>
  if s.run=.selecting then
   (s.conns[i]?.bind (Conn.heard cfg)).map (fun r=>
    {s with run:=.checking r.1 i,conns:=s.conns.set i r.2})
  else none
 | .check=>
  match s.run with
  | .checking stage i=>s.conns[i]?.bind (fun c=>
   if CallsSelf cfg stage s.peers c ∧ s.lock≠none then none
   else some (s.checked c stage i (checks cfg (s.selfId cfg) s.peers c stage)))
  | _=>none
 | .answered=>
  match s.run with
  | .answering stage i err=>s.conns[i]?.bind (fun c=>
   if c.pc=.waiting stage then
    some {s with run:=.selecting,conns:=s.conns.set i (c.answer err stage)}
   else none)
  | _=>none
 | .delHeard k=>
  if s.run=.selecting ∨ (s.run=.draining ∧ s.peers.entries≠[]) then
   s.procs[k]?.bind (fun p=>
    if p.pc=.leaving then
     some {s with
      peers:=s.peers.erase p.id
      procs:=s.procs.set k {p with pc:=.recounting .asking}}
    else none)
  else none
 | .tableClosed order=>
  if s.run=.closingTable ∧ order.Perm s.peers.entries then
   some {s with run:=.disconnecting (order.map Sigma.snd)}
  else none
 | .disconnect=>
  match s.run with
  | .disconnecting (k::left)=>(s.procs[k]?.bind Proc.disconnect).map (fun p=>
   {s with run:=.disconnecting left,procs:=s.procs.set k p})
  | _=>none
 | .drain=>if s.run=.disconnecting [] then some {s with run:=.draining} else none
 | .runEnded=>
  if s.run=.draining ∧ s.peers.entries=[] then some {s with run:=.ended} else none
 | .takeSlot=>
  if s.listen=.waitingSlot ∧ 0 < s.slots then
   some {s with listen:=.accepting,slots:=s.slots-1}
  else none
 | .accept=>
  if s.listen=.accepting ∧ s.listening then
   some {s with
    listen:=.waitingSlot
    conns:=s.conns++[⟨.start,default,none,false,false,0,true⟩]}
  else none
 | .acceptFailed=>
  if s.listen=.accepting ∧ s.listening=false then some {s with listen:=.ended} else none
 | .giveSlot i=>s.conns[i]?.bind (fun c=>
  if c.slot ∧ (c.pc=.closed ∨ c.pc=.established) then
   some {s with slots:=s.slots+1,conns:=s.conns.set i {c with slot:=false}}
  else none)
 | .dial dest static=>
  some {s with
   conns:=s.conns++[⟨.start,default,some dest,false,static,0,false⟩]}
 | .call c=>if c.Fresh then some {s with callers:=s.callers++[c]} else none

/-- The action needs a remote node or a new goroutine. -/
def Action.FromOutside:Action ι→Prop
 | .proc _ .failed | .accept | .dial _ _ | .call _=>True
 | _=>False

/-- `Stop` waits for the loops and no goroutine can go on. -/
def Stuck (cfg:Config ι) (s:Server ι):Prop:=
 .stop .waiting∈s.callers ∧ ∀a:Action ι,¬a.FromOutside→step cfg s a=none

end GoCoupe.ServerStopping
