import GoCoupe.TrieOperations
import Mathlib.Data.Finmap

/-!
# The trie synchronisation scheduler

`trie/sync.go`. Requests are kept by their hash and name their parents by hashes. A leaf
callback is represented by the calls of `AddSubTrie` it makes. The batch of a commit is written
at once. `subTries` records the roots of all tries ever added, which the source has no field
for. `none` is a panic.
-/

namespace GoCoupe.TrieSynchronisation
open TrieNodes
open TrieOperations.Trie (emptyRoot zeroHash)

structure Request where
 data:Option Bytes
  /-- The request has no node object to fill in: its data are stored as they are. -/
 raw:Bool
 parents:List Bytes
 depth:ℕ
 deps:ℤ
 deriving DecidableEq

structure SyncResult where
 hash:Bytes
 data:Bytes

structure SubTrie where
 root:Bytes
 depth:ℕ
 parent:Bytes

/-- The sub-tries that the callback adds for a leaf of the parent. -/
abbrev LeafCallback:=ℕ→Bytes→Bytes→List SubTrie

inductive SyncError where
 | notRequested (hash:Bytes)
 | decode (e:DecodeError)

structure TrieSync where
 database:Db
 requests:Finmap (fun _:Bytes=>Request)
 queue:List (Bytes × ℕ)
 subTries:List Bytes

def known (db:Db) (hash:Bytes):Option Bool:=
 match (decodeNode ((db hash).getD [])).run with
 | none=>none
 | some (.ok _)=>some true
 | some (.error _)=>some false

/-- The children of a node that are not nil, with their slots and depths. -/
def childNodes (depth:ℕ):Node→Option (List (ℕ × Node × ℕ))
 | .shortNode key val=>some [(0,val,depth+key.length)]
 | .fullNode cs=>
  some ((List.finRange 17).filterMap (fun i=>
   if (cs i).isNil then none else some (i.val,cs i,depth+1)))
 | _=>none

def popItem:List (Bytes × ℕ)→Option ((Bytes × ℕ) × List (Bytes × ℕ))
 | []=>none
 | x::xs=>
  match popItem xs with
  | none=>some (x,[])
  | some (y,ys)=>if y.2>x.2 then some (y,x::ys) else some (x,xs)

def popItems:ℕ→List (Bytes × ℕ) → List Bytes × List (Bytes × ℕ)
 | 0,queue=>([],queue)
 | n+1,queue=>
  match popItem queue with
  | none=>([],queue)
  | some (x,queue)=>((x.1::(popItems n queue).1),(popItems n queue).2)

namespace TrieSync

def setRequest (s:TrieSync) (hash:Bytes) (req:Request):TrieSync:=
 {s with requests:=s.requests.insert hash req}

/-- A request that is already pending is only given the new parents. -/
def schedule (s:TrieSync) (hash:Bytes) (req:Request):TrieSync:=
 match s.requests.lookup hash with
 | some old=>s.setRequest hash {old with parents:=old.parents++req.parents}
 | none=>{s.setRequest hash req with queue:=(hash,req.depth)::s.queue}

variable (sha3:Bytes→Bytes)

def emptyState:Bytes:=sha3 []

/-- The parent of an added trie or entry waits for it. -/
def scheduleBelow (s:TrieSync) (hash parent:Bytes) (req:Request):Option TrieSync:=
 if parent=zeroHash then some (s.schedule hash req)
 else
  match s.requests.lookup parent with
  | none=>none
  | some ancestor=>
   some ((s.setRequest parent {ancestor with deps:=ancestor.deps+1}).schedule hash
    {req with parents:=[parent]})

def addSubTrie (s:TrieSync) (root:Bytes) (depth:ℕ) (parent:Bytes):Option TrieSync:=
 let s:={s with subTries:=root::s.subTries}
 if root=emptyRoot sha3 then some s
 else
  match known s.database root with
  | none=>none
  | some true=>some s
  | some false=>s.scheduleBelow root parent ⟨none,false,[],depth,0⟩

def addRawEntry (s:TrieSync) (hash:Bytes) (depth:ℕ) (parent:Bytes):Option TrieSync:=
 if hash=emptyState sha3 then some s
 else if (s.database hash).isSome then some s
 else s.scheduleBelow hash parent ⟨none,true,[],depth,0⟩

/-- Runs the callback on the leaves and collects the children that are not in the database. -/
def children (callback:LeafCallback) (hash:Bytes):
 List (ℕ × Node × ℕ)→TrieSync→List (Bytes × ℕ)→Option (TrieSync × List (Bytes × ℕ))
 | [],s,requests=>some (s,requests)
 | (i,.valueNode leaf,_)::cs,s,requests=>do
  let s ← (callback i leaf hash).foldlM
   (fun s t=>addSubTrie sha3 s t.root t.depth t.parent) s
  children callback hash cs s requests
 | (_,.hashNode child,depth)::cs,s,requests=>do
  let found ← known s.database child
  children callback hash cs s (if found then requests else requests++[(child,depth)])
 | _::cs,s,requests=>children callback hash cs s requests

/-- Stores a request and then every parent for which it was the last dependency. The fuel is
the number of pending requests, of which every call removes one. -/
def commit:ℕ→TrieSync→Bytes→Option TrieSync
 | 0,_,_=>none
 | fuel+1,s,key=>
  match s.requests.lookup key with
  | none=>none
  | some req=>
   let s:={s with
    database:=Function.update s.database key (some (req.data.getD []))
    requests:=s.requests.erase key}
   req.parents.foldlM (fun s parent=>
    match s.requests.lookup parent with
    | none=>none
    | some p=>
     let s:=s.setRequest parent {p with deps:=p.deps-1}
     if p.deps-1=0 then commit fuel s parent else some s) s

def pending (s:TrieSync):ℕ:=s.requests.keys.card

def processItem (s:TrieSync) (item:SyncResult) (callback:LeafCallback):
 Option (TrieSync × Option SyncError):=
 match s.requests.lookup item.hash with
 | none=>some (s,some (.notRequested item.hash))
 | some req=>
  let s':=s.setRequest item.hash {req with data:=some item.data}
  if req.raw then do
   let s ← s'.commit s'.pending item.hash
   pure (s,none)
  else
   match (decodeNode item.data).run with
   | none=>none
   | some (.error e)=>some (s,some (.decode e))
   | some (.ok node)=>do
    let cs ← childNodes req.depth node
    let (s,requests) ← children sha3 callback item.hash cs s' []
    let req ← s.requests.lookup item.hash
    if requests.length=0 ∧ req.deps=0 then do
     let s ← s.commit s.pending item.hash
     pure (s,none)
    else
     let s:=s.setRequest item.hash {req with deps:=req.deps+requests.length}
     pure (requests.foldl (fun s child=>
      s.schedule child.1 ⟨none,false,[item.hash],child.2,0⟩) s,none)

/-- Stops at the first error and returns the position of the item at fault. -/
def process:ℕ→TrieSync→List (SyncResult × LeafCallback)→Option (TrieSync × Option (ℕ × SyncError))
 | _,s,[]=>some (s,none)
 | i,s,(item,callback)::results=>do
  let (s,err) ← s.processItem sha3 item callback
  match err with
  | some e=>pure (s,some (i,e))
  | none=>process (i+1) s results

def missing (s:TrieSync) (max:ℕ):List Bytes × TrieSync:=
 let (hashes,queue):=popItems (if max=0 then s.queue.length else max) s.queue
 (hashes,{s with queue:=queue})

def newTrieSync (root:Bytes) (database:Db):Option TrieSync:=
 addSubTrie sha3 ⟨database,∅,[],[]⟩ root 0 zeroHash

end TrieSync

end GoCoupe.TrieSynchronisation
