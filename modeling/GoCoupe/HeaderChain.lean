import GoCoupe.BlockChainModel

/-!
# Writing headers

`BlockChain.writeHeader` of `core/blockchain.go` with the header cache. `none` stands for a
call that does not return: a nil pointer is followed, or a loop does not end.
-/

namespace GoCoupe.BlockChainModel
open RecencyCaches

def headerCacheLimit:ℕ:=512

def ChainDb.deleteCanonicalHash (db:ChainDb) (number:ℕ):ChainDb:=
 {db with canonical:=Function.update db.canonical number none}

structure HeaderChain where
 chain:BlockChain
 headerCache:Cache Hash Header

variable (hash:Header→Hash)

def newHeaderChain (genesis:Block):HeaderChain:=⟨newBlockChain hash genesis,Cache.new headerCacheLimit⟩

/-- The loop that deletes the assignments above the new head. -/
def ChainDb.deleteAbove:ℕ→ChainDb→ℕ→Option ChainDb
 | 0,_,_=>none
 | fuel+1,db,i=>
  if db.getCanonicalHash i≠0 then deleteAbove fuel (db.deleteCanonicalHash i) (i+1)
  else some db

namespace HeaderChain

def withDb (hc:HeaderChain) (db:ChainDb):HeaderChain:=
 {hc with chain:={hc.chain with chainDb:=db}}

def getTd (hc:HeaderChain) (h:Hash):Option ℕ × HeaderChain:=let (td,chain):=hc.chain.getTd h
 (td,{hc with chain:=chain})

def getHeader (hc:HeaderChain) (h:Hash):Option Header × HeaderChain:=
 match hc.headerCache.get h with
 | (some header,cache)=>(some header,{hc with headerCache:=cache})
 | (none,cache)=>
  match hc.chain.chainDb.headers h with
  | none=>(none,{hc with headerCache:=cache})
  | some header=>(some header,{hc with headerCache:=cache.add (hash header) header})

/-- The loop that overwrites stale assignments, from `head` downwards. -/
def overwriteStale:ℕ→HeaderChain→Header→Option HeaderChain
 | 0,_,_=>none
 | fuel+1,hc,head=>
  if hc.chain.chainDb.getCanonicalHash head.number≠hash head then
   let hc:=hc.withDb (hc.chain.chainDb.writeCanonicalHash (hash head) head.number)
   match hc.getHeader hash head.parentHash with
   | (none,_)=>none
   | (some head,hc)=>overwriteStale fuel hc head
  else some hc

/-- The branch of `writeHeader` for a header that outweighs the head. -/
def makeCanonical (hc:HeaderChain) (header:Header):Option HeaderChain:=
 let fuel:=hc.chain.currentHeader.number+header.number+2
 match hc.chain.chainDb.deleteAbove fuel (header.number+1) with
 | none=>none
 | some db=>
  match (hc.withDb db).getHeader hash header.parentHash with
  | (none,_)=>none
  | (some head,hc)=>
   match hc.overwriteStale hash fuel head with
   | none=>none
   | some hc=>
    let db:=(hc.chain.chainDb.writeCanonicalHash (hash header) header.number
     ).writeHeadHeaderHash (hash header)
    some {hc with chain:={hc.chain with chainDb:=db,currentHeader:=header}}

/-- The header itself is written whatever its status. -/
def storeHeader (hc:HeaderChain) (header:Header) (td:ℕ):HeaderChain:=
 hc.withDb ((hc.chain.chainDb.writeTd (hash header) td).writeHeader hash header)

def writeHeader (hc:HeaderChain) (header:Header):Option (HeaderChain × Option ChainError):=
 match hc.getTd header.parentHash with
 | (none,hc)=>some (hc,some (.parentError header.parentHash))
 | (some ptd,hc)=>
  let td:=header.difficulty+ptd
  match hc.getTd (hash hc.chain.currentHeader) with
  | (none,_)=>none
  | (some headTd,hc)=>
   if td>headTd then
    match hc.makeCanonical hash header with
    | none=>none
    | some hc=>some (hc.storeHeader hash header td,none)
   else some (hc.storeHeader hash header td,none)

end HeaderChain

end GoCoupe.BlockChainModel
