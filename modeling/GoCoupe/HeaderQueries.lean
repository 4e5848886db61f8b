import GoCoupe.HeaderChainRuns
import Mathlib.Data.Int.Order.Basic
import Mathlib.Data.List.TakeWhile

/-!
# Answering header queries

The `GetBlockHeadersMsg` case of `handleMsg` in `eth/handler.go`, with the reads of
`core/blockchain.go`, which go through the header cache. `none` is a run-time panic. Query
fields are 64-bit words, and `int` is the signed 64-bit integer.
-/

namespace GoCoupe.HeaderQueries
open BlockChainModel

/-- A program that reads the chain and may panic. -/
abbrev Reading:=StateT HeaderChain Option

def maxHeaderFetch:ℕ:=192
def softResponseLimit:ℕ:=2*1024*1024
def estHeaderRlpSize:ℕ:=500

/-- An origin block: a zero hash means that the number is used. -/
structure HashOrNumber where
 hash:Hash
 number:UInt64
 deriving DecidableEq,Repr

structure GetBlockHeadersData where
 origin:HashOrNumber
 amount:UInt64
 skip:UInt64
 reverse:Bool
 deriving DecidableEq,Repr

namespace GetBlockHeadersData

def withHash (query:GetBlockHeadersData) (h:Hash):GetBlockHeadersData:=
 {query with origin:={query.origin with hash:=h}}

def withNumber (query:GetBlockHeadersData) (n:UInt64):GetBlockHeadersData:=
 {query with origin:={query.origin with number:=n}}

end GetBlockHeadersData

variable (hash:Header→Hash)

def getHeader (h:Hash):Reading (Option Header):=fun hc=>some (hc.getHeader hash h)

def getCanonicalHash (number:UInt64):Reading Hash:=
 fun hc=>some (hc.chain.chainDb.getCanonicalHash number.toNat,hc)

def getHeaderByNumber (number:UInt64):Reading (Option Header):=do
 let h ← getCanonicalHash number
 if h=0 then return none else getHeader hash h

/-- The loop of `GetBlockHashesFromHash`, with the number of turns left. -/
def collectHashes:ℕ→Header→Reading (List Hash)
 | 0,_=>return []
 | n+1,header=>do
  match ← getHeader hash header.parentHash with
  | none=>return []
  | some parent=>
   if parent.number=0 then return [hash parent]
   else return hash parent::(← collectHashes n parent)

def getBlockHashesFromHash (h:Hash) (max:UInt64):Reading (List Hash):=do
 match ← getHeader hash h with
 | none=>return []
 | some header=>collectHashes hash max.toNat header

def getOrigin (query:GetBlockHeadersData):Reading (Option Header):=
 if query.origin.hash≠0 then getHeader hash query.origin.hash
 else getHeaderByNumber hash query.origin.number

/-- The walk towards genesis along parent hashes, with the number of turns left: the hash it
ends at, and whether a header on the way was unknown. -/
def walkBack:ℕ→Hash→Reading (Hash × Bool)
 | 0,h=>return (h,false)
 | n+1,h=>do
  match ← getHeader hash h with
  | some header=>walkBack n header.parentHash
  | none=>return (h,true)

/-- How often `for i := 0; i < int(query.Skip)+1; i++` turns. -/
def turns (skip:UInt64):ℕ:=(skip.toInt64+1).toInt.toNat

def index (l:List Hash) (i:UInt64):Reading Hash:=fun hc=>(l[i.toNat]?).map (·,hc)

/-- The query for the next header, and whether it is unknown. -/
def advance (query:GetBlockHeadersData) (origin:Header):Reading (GetBlockHeadersData × Bool):=
 if query.origin.hash≠0 then
  if query.reverse then do
   let (h,unknown) ← walkBack hash (turns query.skip) query.origin.hash
   return (query.withHash h,unknown)
  else do
   match ← getHeaderByNumber hash (UInt64.ofNat origin.number+query.skip+1) with
   | none=>return (query,true)
   | some header=>
    let hashes ← getBlockHashesFromHash hash (hash header) (query.skip+1)
    if (← index hashes query.skip)=query.origin.hash then
     return (query.withHash (hash header),false)
    else return (query,true)
 else if query.reverse then
  if query.origin.number≥query.skip+1 then
   return (query.withNumber (query.origin.number-(query.skip+1)),false)
  else return (query,true)
 else return (query.withNumber (query.origin.number+(query.skip+1)),false)

/-- The condition of the gathering loop; `bytes` grows by the same estimate with each header. -/
def Wanted (query:GetBlockHeadersData) (headers:List Header) (unknown:Bool):Prop:=
 ¬unknown ∧ (headers.length:ℤ)<query.amount.toInt64.toInt ∧
  headers.length*estHeaderRlpSize < softResponseLimit ∧ headers.length < maxHeaderFetch

instance decidableWanted (query:GetBlockHeadersData) (headers:List Header) (unknown:Bool):
 Decidable (Wanted query headers unknown):=
 inferInstanceAs (Decidable (_ ∧ _ ∧ _ ∧ _))

end GoCoupe.HeaderQueries
