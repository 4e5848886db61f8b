import GoCoupe.AdaptiveReplacementCache
import GoCoupe.TrieNodes

/-!
# The trie and its operations

`trie/trie.go`. The database and the global cache of decoded nodes are passed through every
call. Recursion is bounded by fuel; twice the length of the key and two is enough, since a
loaded node is never a hash node again. `none` is a panic.
-/

namespace GoCoupe.TrieOperations
open HexPrefixKeys TrieNodes AdaptiveReplacementCache Function

structure Store where
 db:Db
 cache:Arc Bytes Node

def defaultCacheCapacity:ℕ:=800

/-- A missing node reads as nil. -/
def resolveHash (st:Store) (n:Bytes):Option (Node × Store):=do
 let (v,cache) ← st.cache.get n
 match v with
 | some node=>pure (node,{st with cache:=cache})
 | none=>
  match st.db n with
  | none=>pure (.nil,{st with cache:=cache})
  | some enc=>do
   let dec ← mustDecodeNode enc
   if dec.isNil then pure (dec,{st with cache:=cache})
   else do
    let cache ← cache.put n dec
    pure (dec,{st with cache:=cache})

def resolve (st:Store):Node→Option (Node × Store)
 | .hashNode h=>resolveHash st h
 | n=>some (n,st)

/-- The loop of `Trie.Get`. -/
def getNode:ℕ→Store→Node→List Nibble→Option (Option Bytes × Store)
 | _,st,tn,[]=>
  match tn with
  | .valueNode v=>some (some v,st)
  | _=>none
 | 0,_,_,_::_=>none
 | fuel+1,st,tn,a::key=>
  match tn with
  | .shortNode nkey nval=>
   if nkey <+: a::key then getNode fuel st nval ((a::key).drop nkey.length)
   else some (none,st)
  | .fullNode cs=>getNode fuel st (cs a) key
  | .nil=>some (none,st)
  | .hashNode h=>do
   let (n,st) ← resolveHash st h
   getNode fuel st n (a::key)
  | .valueNode _=>none

def insert:ℕ→Store→Node→List Nibble→Node→Option (Node × Store)
 | 0,_,_,_,_=>none
 | _+1,st,_,[],value=>some (value,st)
 | fuel+1,st,n,a::key,value=>
  match n with
  | .shortNode nkey nval=>
   let matchlen:=prefixLen (a::key) nkey
   if matchlen=nkey.length then do
    let (child,st) ← insert fuel st nval ((a::key).drop matchlen) value
    pure (.shortNode nkey child,st)
   else
    match nkey.drop matchlen,(a::key).drop matchlen with
    | x::nrest,y::krest=>do
     let (old,st) ← insert fuel st .nil nrest nval
     let (new,st) ← insert fuel st .nil krest value
     let branch:=update (update (fun _=>Node.nil) x old) y new
     if matchlen=0 then pure (.fullNode branch,st)
     else pure (.shortNode ((a::key).take matchlen) (.fullNode branch),st)
    | _,_=>none
  | .fullNode cs=>do
   let (child,st) ← insert fuel st (cs a) key value
   pure (.fullNode (update cs a child),st)
  | .nil=>some (.shortNode (a::key) value,st)
  | .hashNode h=>do
   let (n,st) ← resolveHash st h
   insert fuel st n (a::key) value
  | .valueNode _=>none

/-- The scan of `delete` for the children that are left. -/
inductive Remaining where
 | none
 | one (pos:Nibble)
 | many
 deriving DecidableEq

def remaining (cs:Nibble→Node):List Nibble→Remaining→Remaining
 | [],pos=>pos
 | i::is,pos=>
  if (cs i).isNil then remaining cs is pos
  else
   match pos with
   | .none=>remaining cs is (.one i)
   | _=>.many

/-- A full node with one child left becomes a short node. -/
def reduceFull (st:Store) (cs:Nibble→Node):Option (Node × Store):=
 match remaining cs (List.finRange 17) .none with
 | .one pos=>
  if pos≠16 then do
   let (cnode,st) ← resolve st (cs pos)
   match cnode with
   | .shortNode ckey cval=>pure (.shortNode (pos::ckey) cval,st)
   | _=>pure (.shortNode [pos] (cs pos),st)
  else some (.shortNode [pos] (cs pos),st)
 | _=>some (.fullNode cs,st)

def delete:ℕ→Store→Node→List Nibble→Option (Node × Store)
 | 0,_,_,_=>none
 | fuel+1,st,n,key=>
  match n with
  | .shortNode nkey nval=>
   let matchlen:=prefixLen key nkey
   if matchlen<nkey.length then some (.shortNode nkey nval,st)
   else if matchlen=key.length then some (.nil,st)
   else do
    let (child,st) ← delete fuel st nval (key.drop nkey.length)
    match child with
    | .shortNode ckey cval=>pure (.shortNode (nkey++ckey) cval,st)
    | child=>pure (.shortNode nkey child,st)
  | .fullNode cs=>
   match key with
   | []=>none
   | a::key=>do
    let (child,st) ← delete fuel st (cs a) key
    reduceFull st (update cs a child)
  | .nil=>some (.nil,st)
  | .hashNode h=>do
   let (n,st) ← resolveHash st h
   delete fuel st n key
  | .valueNode _=>none

structure Trie where
 root:Node

namespace Trie

def fuelFor (key:List Nibble):ℕ:=2*key.length+2

def get (t:Trie) (st:Store) (key:Bytes):Option (Option Bytes × Store):=
 let key:=compactHexDecode key
 getNode (fuelFor key) st t.root key

def delete (t:Trie) (st:Store) (key:Bytes):Option (Trie × Store):=let k:=compactHexDecode key
 (TrieOperations.delete (fuelFor k) st t.root k).map (fun r=>(⟨r.1⟩,r.2))

def update (t:Trie) (st:Store) (key value:Bytes):Option (Trie × Store):=
 let k:=compactHexDecode key
 if value.length≠0 then
  (insert (fuelFor k) st t.root k (.valueNode value)).map (fun r=>(⟨r.1⟩,r.2))
 else (TrieOperations.delete (fuelFor k) st t.root k).map (fun r=>(⟨r.1⟩,r.2))

variable (sha3:Bytes→Bytes)

/-- The known root hash of an empty trie, the hash of an encoded empty string. -/
def emptyRoot:Bytes:=sha3 [0x80]

def zeroHash:Bytes:=List.replicate 32 0

/-- `New`; an error is returned as `none` inside. -/
def new (root:Bytes) (st:Store):Option Trie:=
 if root≠zeroHash ∧ root≠emptyRoot sha3 then
  match st.db root with
  | none=>none
  | some v=>if v.length=0 then none else some ⟨.hashNode root⟩
 else some ⟨.nil⟩

def hashRoot (t:Trie) (db:Option Db):Option (Collapsed × Option Db):=
 match t.root with
 | .nil=>some (.hashNode (emptyRoot sha3),db)
 | root=>TrieNodes.hash sha3 root db true

/-- `Hash`; the type assertion on the result panics if it is not a hash. -/
def hash (t:Trie):Option Bytes:=do
 let (root,_) ← t.hashRoot sha3 none
 match root with
 | .hashNode h=>some h
 | _=>none

/-- `Commit`: the root is replaced by its hash. -/
def commit (t:Trie) (st:Store):Option (Bytes × Trie × Store):=do
 let (root,db) ← t.hashRoot sha3 (some st.db)
 match root,db with
 | .hashNode h,some db=>some (h,⟨.hashNode h⟩,{st with db:=db})
 | _,_=>none

end Trie

end GoCoupe.TrieOperations
