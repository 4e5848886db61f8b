import GoCoupe.HexPrefixKeys
import GoCoupe.RlpRawSplitting
import Mathlib.Data.List.OfFn

/-!
# Trie nodes, their decoding and their hashing

`trie/node.go` and the `hasher` of `trie/trie.go`. In the collapsed form of a node keys are
compactly encoded and children are hashes, embedded nodes or values. The hash function is a
parameter; `none` is a panic.
-/

namespace GoCoupe.TrieNodes
open HexPrefixKeys RlpEncoding RlpRawSplitting Function

inductive Node where
 | nil
 | valueNode (value:Bytes)
 | hashNode (hash:Bytes)
 | shortNode (key:List Nibble) (val:Node)
 | fullNode (children:Nibble→Node)

instance:Inhabited Node:=⟨.nil⟩

def branchIndices:List Nibble:=[0,1,2,3,4,5,6,7,8,9,10,11,12,13,14,15]

inductive DecodeError where
 | unexpectedEOF
 | split (e:RlpError)
 | decode (e:RlpError)
 | elements (c:ℕ)
 | invalidValue (e:RlpError)
 | oversized (size:ℕ)
 | stringSize (size:ℕ)
 | wrapped (what:DecodeError) (context:String)

def hashLen:ℕ:=32

def relabel {ε ε' α:Type} (f:ε→ε') (x:Outcome ε α):Outcome ε' α:=ExceptT.adapt f x

def wrapError {α:Type} (context:String) (x:Outcome DecodeError α):Outcome DecodeError α:=
 relabel (.wrapped · context) x

section Decoding

variable (decodeNode:Bytes→Outcome DecodeError Node)

def decodeRef (buf:Bytes):Outcome DecodeError (Node × Bytes):=do
 let (kind,val,rest) ← relabel .split (split buf)
 if kind=.list then
  let size:=buf.length-rest.length
  if size>hashLen then throw (.oversized size)
  else do
   let n ← decodeNode buf
   pure (n,rest)
 else if kind=.string ∧ val.length=0 then pure (.nil,rest)
 else if kind=.string ∧ val.length=32 then pure (.hashNode val,rest)
 else throw (.stringSize val.length)

def decodeShort (buf:Bytes):Outcome DecodeError Node:=do
 let (kbuf,rest) ← relabel .split (splitString buf)
 match compactDecode kbuf with
 | none=>crash
 | some key=>
  match key.getLast? with
  | none=>crash
  | some last=>
   if last=16 then do
    let (val,_) ← relabel .invalidValue (splitString rest)
    pure (.shortNode key (.valueNode val))
   else do
    let (r,_) ← wrapError "val" (decodeRef decodeNode rest)
    pure (.shortNode key r)

/-- The loop of `decodeFull` over the first sixteen slots. -/
def decodeChildren:List Nibble→(Nibble→Node)→Bytes→Outcome DecodeError ((Nibble→Node) × Bytes)
 | [],n,buf=>pure (n,buf)
 | i::is,n,buf=>do
  let (cld,rest) ← wrapError ("[" ++ toString i.val ++ "]") (decodeRef decodeNode buf)
  decodeChildren is (update n i cld) rest

def decodeFull (buf:Bytes):Outcome DecodeError Node:=do
 let (n,buf) ← decodeChildren decodeNode branchIndices (fun _=>.nil) buf
 let (val,_) ← relabel .split (splitString buf)
 if val.length>0 then pure (.fullNode (update n 16 (.valueNode val)))
 else pure (.fullNode n)

end Decoding

/-- `decodeNode` ignores the error of `CountValues`, which then returns zero. -/
def elementCount (elems:Bytes):Outcome DecodeError ℕ:=
 match (countValues elems).run with
 | none=>crash
 | some (.error _)=>pure 0
 | some (.ok c)=>pure c

/-- An embedded node lies inside the list of its parent, so the length of the input
bounds the nesting. -/
def decodeNested:ℕ→Bytes→Outcome DecodeError Node
 | 0,_=>crash
 | fuel+1,buf=>
  if buf.length=0 then throw .unexpectedEOF
  else do
   let (elems,_) ← relabel .decode (splitList buf)
   let c ← elementCount elems
   if c=2 then wrapError "short" (decodeShort (decodeNested fuel) elems)
   else if c=17 then wrapError "full" (decodeFull (decodeNested fuel) elems)
   else throw (.elements c)

def decodeNode (buf:Bytes):Outcome DecodeError Node:=decodeNested (buf.length+1) buf

/-- `mustDecodeNode` panics on an error. -/
def mustDecodeNode (buf:Bytes):Option Node:=
 match (decodeNode buf).run with
 | some (.ok n)=>some n
 | _=>none

inductive Collapsed where
 | nil
 | valueNode (value:Bytes)
 | hashNode (hash:Bytes)
 | shortNode (key:Bytes) (val:Collapsed)
 | fullNode (children:Nibble → Collapsed)

/-- A node that is written as it stands, with its hex keys for bytes. -/
def Node.raw:Node → Collapsed
 | .nil=>.nil
 | .valueNode v=>.valueNode v
 | .hashNode h=>.hashNode h
 | .shortNode key val=>.shortNode (key.map nibbleByte) val.raw
 | .fullNode cs=>.fullNode (fun i=>(cs i).raw)

/-- The value that `rlp.Encode` sees: a nil interface is an empty list. -/
def Collapsed.toItem:Collapsed→Item
 | .nil=>.list []
 | .valueNode v=>.string v
 | .hashNode h=>.string h
 | .shortNode key val=>.list [.string key,val.toItem]
 | .fullNode cs=>.list (List.ofFn (fun i=>(cs i).toItem))

/-- Nil children are written as empty strings. -/
def Collapsed.orEmpty:Collapsed → Collapsed
 | .nil=>.valueNode []
 | n=>n

abbrev Db:=Bytes→Option Bytes

def Node.isValue:Node→Bool
 | .valueNode _=>true
 | _=>false

def Node.isNil:Node→Bool
 | .nil=>true
 | _=>false

variable (sha3:Bytes→Bytes)

/-- `hasher.store`; without a database nothing is written. -/
def store (n:Collapsed) (db:Option Db) (force:Bool):Collapsed × Option Db:=
 match n with
 | .nil=>(.nil,db)
 | .hashNode h=>(.hashNode h,db)
 | n=>
  let enc:=rlpEncode n.toItem
  if enc.length<32 ∧ force=false then (n,db)
  else (.hashNode (sha3 enc),db.map (update · (sha3 enc) (some enc)))

/-- `hasher.replaceChildren`, with `hasher.hash` written out for the children. `none`
is the panic on an empty key. -/
def replaceChildren:Node→Option Db→Option (Collapsed × Option Db)
 | .shortNode key val,db=>do
  let key ← compactEncode key
  if val.isValue then pure (.shortNode key val.raw,db)
  else do
   let (hashed,db) ← replaceChildren val db
   let (child,db):=store sha3 hashed db false
   pure (.shortNode key child.orEmpty,db)
 | .fullNode cs,db=>do
  let (children,db) ← branchIndices.foldlM (fun acc i=>do
   if (cs i).isNil then pure (update acc.1 i (Collapsed.valueNode []),acc.2)
   else do
    let (hashed,db) ← replaceChildren (cs i) acc.2
    let (child,db):=store sha3 hashed db false
    pure (update acc.1 i child,db)) ((fun i=>(cs i).raw),db)
  pure (.fullNode (update children 16 (children 16).orEmpty),db)
 | n,db=>some (n.raw,db)

def hash (n:Node) (db:Option Db) (force:Bool):Option (Collapsed × Option Db):=
 (replaceChildren sha3 n db).map (fun r=>store sha3 r.1 r.2 force)

end GoCoupe.TrieNodes
