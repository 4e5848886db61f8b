import GoCoupe.CommonTypes
import GoCoupe.MapIteration
import Mathlib.Algebra.Order.Ring.Int

/-!
# Dial tasks

The task lists of `Server.run` in `p2p/server.go` and the dialer of `p2p/dial.go`. A task is a
pointer in the source, here a number given out once.
-/

namespace GoCoupe.DialTasks
open MapIteration

abbrev NodeId:=BitVec 512

structure Node where
 id:NodeId
 ip:Bytes
 udp:ℕ
 tcp:ℕ
 deriving DecidableEq,Repr

structure NumberedTask (κ:Type) where
 id:ℕ
 kind:κ
 deriving DecidableEq,Repr

/-- The methods of the interface `dialer`. New tasks are computed from the number of tasks and
from the surroundings `ι`; a finished task is reported with its results `ρ`. -/
structure Dialer (σ κ ι ρ:Type) where
 newTasks:σ→ℕ→ι→List κ × σ
 taskDone:σ→κ→ρ→σ
 addStatic:σ→Node→σ

/-- The variables of the loop, with records of what was handed over, started and completed. -/
structure Loop (σ κ:Type) where
 dialer:σ
 tasks:List (NumberedTask κ)
 pendingTasks:List (NumberedTask κ)
 next:ℕ
 handed:List (NumberedTask κ)
 started:List (NumberedTask κ)
 completed:List (NumberedTask κ)

def maxActiveDialTasks:ℕ:=16

variable {σ κ ι ρ:Type}

def number (next:ℕ) (kinds:List κ):List (NumberedTask κ):=kinds.zipIdx.map (fun k=>⟨next+k.2,k.1⟩)

/-- The variable `start` of `scheduleTasks`. -/
def startCount (active waiting:ℕ):ℤ:=if (waiting:ℤ)<(maxActiveDialTasks:ℤ)-active then waiting
 else (maxActiveDialTasks:ℤ)-active

def scheduleTasks (s:Loop σ κ) (new:List (NumberedTask κ)):Loop σ κ:=let pt:=s.pendingTasks++new
 let start:=startCount s.tasks.length pt.length
 if start>0 then
  {s with
   tasks:=s.tasks++pt.take start.toNat
   started:=s.started++pt.take start.toNat
   pendingTasks:=pt.drop start.toNat}
 else s

variable [DecidableEq κ]

def delTask (s:Loop σ κ) (t:NumberedTask κ):Loop σ κ:={s with tasks:=s.tasks.erase t}

/-- The start of a turn: ask the dialer and schedule what it gives. -/
def tick (D:Dialer σ κ ι ρ) (s:Loop σ κ) (i:ι):Loop σ κ:=
 let (kinds,dialer):=D.newTasks s.dialer (s.pendingTasks.length+s.tasks.length) i
 let new:=number s.next kinds
 scheduleTasks
  {s with dialer:=dialer,next:=s.next+kinds.length,handed:=s.handed++new} new

/-- The case `t := <-taskdone`. -/
def taskDone (D:Dialer σ κ ι ρ) (s:Loop σ κ) (t:NumberedTask κ) (r:ρ):Loop σ κ:=
 delTask {s with
  dialer:=D.taskDone s.dialer t.kind r
  completed:=s.completed++[t]} t

/-- What happens in the loop. Turns of other cases leave the tasks alone. -/
inductive Event (κ ι ρ:Type) where
 | tick (i:ι)
 | done (t:NumberedTask κ) (r:ρ)
 | addStatic (n:Node)

/-- A task can be reported once it was started, and only once. -/
def step (D:Dialer σ κ ι ρ) (s:Loop σ κ):Event κ ι ρ→Loop σ κ
 | .tick i=>tick D s i
 | .done t r=>if t∈s.started ∧ t∉s.completed then taskDone D s t r else s
 | .addStatic n=>{s with dialer:=D.addStatic s.dialer n}

def begin (d:σ):Loop σ κ:=⟨d,[],[],0,[],[],[]⟩

def run (D:Dialer σ κ ι ρ) (s:Loop σ κ) (events:List (Event κ ι ρ)):Loop σ κ:=
 events.foldl (step D) s

abbrev ConnFlag:=ℕ

def dynDialedConn:ConnFlag:=1
def staticDialedConn:ConnFlag:=2

inductive TaskKind where
 | dial (flags:ConnFlag) (dest:Node)
 | discover (bootstrap:Bool)
 | waitExpire (duration:ℤ)
 deriving DecidableEq,Repr

structure PastDial where
 id:NodeId
 exp:ℕ
 deriving DecidableEq,Repr

structure DialState where
 maxDynDials:ℤ
 lookupRunning:Bool
 bootstrapped:Bool
 dialing:GoMap NodeId ConnFlag
 lookupBuf:List Node
 static:GoMap NodeId Node
 hist:List PastDial

/-- What one call of `newTasks` sees: the connected peers with their flags, the time, the random
nodes that the table hands out and the order in which the static nodes are visited. -/
structure Surroundings where
 peers:GoMap NodeId ConnFlag
 now:ℕ
 randomNodes:List Node
 visit:List (Σ _:NodeId,Node) → List (Σ _:NodeId,Node)
 perm:∀l,(visit l).Perm l

def newDialState (static:List Node) (maxdyn:ℤ):DialState where
 maxDynDials:=maxdyn
 lookupRunning:=false
 bootstrapped:=false
 dialing:=∅
 lookupBuf:=[]
 static:=static.foldl (fun m n=>m.insert n.id n) ∅
 hist:=[]

def addStatic (s:DialState) (n:Node):DialState:={s with static:=s.static.insert n.id n}

structure Adding where
 dialer:DialState
 newtasks:List TaskKind

def addDial (peers:GoMap NodeId ConnFlag) (a:Adding) (flag:ConnFlag) (n:Node):Bool × Adding:=
 if n.id∈a.dialer.dialing ∨ n.id∈peers ∨ n.id∈a.dialer.hist.map PastDial.id then (false,a)
 else
  (true,⟨{a.dialer with dialing:=a.dialer.dialing.insert n.id flag},a.newtasks++[.dial flag n]⟩)

/-- Dials that are made until enough are under way: the candidates left over, the number of
dials still needed, and the dialer. -/
def dialCandidates (peers:GoMap NodeId ConnFlag) (enough:ℤ→Bool):
 List Node→ℤ→Adding→List Node × ℤ × Adding
 | [],need,a=>([],need,a)
 | n::nodes,need,a=>
  if enough need then (n::nodes,need,a)
  else
   let (added,a):=addDial peers a dynDialedConn n
   dialCandidates peers enough nodes (if added then need-1 else need) a

def dynDials (flags:GoMap NodeId ConnFlag):ℤ:=
 (flags.entries.countP (·.2 &&& dynDialedConn≠0):ℕ)

def expire (hist:List PastDial) (now:ℕ):List PastDial:=hist.filter (¬·.exp<now)

/-- The number of dynamic dials that are necessary. -/
def needDynDials (s:DialState) (i:Surroundings):ℤ:=s.maxDynDials-dynDials i.peers-dynDials s.dialing

def dialStatic (s:DialState) (i:Surroundings):Adding:=
 (i.visit s.static.entries).foldl (fun a e=>(addDial i.peers a staticDialedConn e.2).2)
  ⟨{s with hist:=expire s.hist i.now},[]⟩

/-- Random nodes of the table, for half of the necessary dials. -/
def randomCandidates (s:DialState) (i:Surroundings) (need:ℤ):List Node:=
 if need.tdiv 2>0 ∧ s.bootstrapped then
  (i.randomNodes.take (s.maxDynDials.tdiv 2).toNat).take (need.tdiv 2).toNat
 else []

/-- Dials to random nodes, and then to results of lookups as long as dials are needed. -/
def dialDynamic (s:DialState) (i:Surroundings):ℤ × Adding:=let need:=needDynDials s i
 let (_,need,a):=dialCandidates i.peers (fun _=>false) (randomCandidates s i need) need (dialStatic s i)
 let (buf,need,a):=dialCandidates i.peers (·≤0) s.lookupBuf need a
 (need,⟨{a.dialer with lookupBuf:=buf},a.newtasks⟩)

def launchLookup (need:ℤ) (a:Adding):Adding:=
 if (a.dialer.lookupBuf.length:ℤ)<need ∧ ¬a.dialer.lookupRunning then
  ⟨{a.dialer with lookupRunning:=true},a.newtasks++[.discover (!a.dialer.bootstrapped)]⟩
 else a

def launchTimer (nRunning now:ℕ) (a:Adding):Adding:=
 if nRunning=0 ∧ a.newtasks=[] then
  match (a.dialer.hist.map PastDial.exp).min? with
  | some exp=>⟨a.dialer,[.waitExpire (exp-now)]⟩
  | none=>a
 else a

def newTasks (s:DialState) (nRunning:ℕ) (i:Surroundings):List TaskKind × DialState:=
 let (need,a):=dialDynamic s i
 let a:=launchTimer nRunning i.now (launchLookup need a)
 (a.newtasks,a.dialer)

def dialHistoryExpiration:ℕ:=30*10^9

/-- A task is reported with the time of the turn, and a lookup with its results. -/
def DialState.taskDone (s:DialState) (t:TaskKind) (r:ℕ × List Node):DialState:=
 match t with
 | .dial _ dest=>
  {s with
   hist:=⟨dest.id,r.1+dialHistoryExpiration⟩::s.hist
   dialing:=s.dialing.erase dest.id}
 | .discover bootstrap=>
  {s with
   bootstrapped:=s.bootstrapped || bootstrap
   lookupRunning:=false
   lookupBuf:=s.lookupBuf++r.2}
 | .waitExpire _=>s

def dialstate:Dialer DialState TaskKind Surroundings (ℕ × List Node) where
 newTasks:=newTasks
 taskDone:=DialState.taskDone
 addStatic:=addStatic

end GoCoupe.DialTasks
