import GoCoupe.CommonTypes
import GoCoupe.RecencyCaches
import Mathlib.Logic.Function.Basic

/-!
# The block chain and its database accessors

A translation of `core/database_util.go` and of the block-writing half of
`core/blockchain.go`. The key-value store is split into one map for each key
prefix. Header hashing is a parameter: `hash` stands for `Header.Hash`, the
Keccak hash of the encoded header. A header keeps the fields the chain logic
reads, and `nonce` stands for the fields it does not read. A transaction is
represented by its hash.

Reads go through the caches and therefore return the chain they leave behind.
An operation returns `none` when the Go call does not return: a nil total
difficulty is dereferenced, or a walk along parent hashes never ends.
-/

namespace GoCoupe.BlockChainModel
open RecencyCaches Function

structure Header where
 parentHash:Hash
 number:ℕ
 difficulty:ℕ
 nonce:ℕ
 deriving DecidableEq,Repr

structure Body where
 transactions:List Hash
 uncles:List Header
 deriving DecidableEq,Repr

structure Block where
 header:Header
 body:Body
 deriving DecidableEq,Repr

namespace Block

def parentHash (b:Block):Hash:=b.header.parentHash
def number (b:Block):ℕ:=b.header.number
def difficulty (b:Block):ℕ:=b.header.difficulty
def transactions (b:Block):List Hash:=b.body.transactions

end Block

structure TxMeta where
 blockHash:Hash
 blockIndex:ℕ
 index:ℕ
 deriving DecidableEq,Repr

structure Receipt where
 txHash:Hash
 deriving DecidableEq,Repr

structure ChainDb where
 canonical:ℕ→Option Hash
 headHeader:Option Hash
 headBlock:Option Hash
 headFast:Option Hash
 headers:Hash→Option Header
 bodies:Hash→Option Body
 tds:Hash→Option ℕ
 txs:Hash→Option TxMeta
 receipts:Hash→Option Receipt
 blockReceipts:Hash→Option (List Receipt)

namespace ChainDb

def empty:ChainDb where
 canonical:=fun _=>none
 headHeader:=none
 headBlock:=none
 headFast:=none
 headers:=fun _=>none
 bodies:=fun _=>none
 tds:=fun _=>none
 txs:=fun _=>none
 receipts:=fun _=>none
 blockReceipts:=fun _=>none

/-- A missing entry reads as the zero hash. -/
def getCanonicalHash (db:ChainDb) (number:ℕ):Hash:=(db.canonical number).getD 0

def writeCanonicalHash (db:ChainDb) (hash:Hash) (number:ℕ):ChainDb:=
 {db with canonical:=update db.canonical number (some hash)}

def writeHeadHeaderHash (db:ChainDb) (hash:Hash):ChainDb:={db with headHeader:=some hash}

def writeHeadBlockHash (db:ChainDb) (hash:Hash):ChainDb:={db with headBlock:=some hash}

def writeHeadFastBlockHash (db:ChainDb) (hash:Hash):ChainDb:={db with headFast:=some hash}

def writeTd (db:ChainDb) (hash:Hash) (td:ℕ):ChainDb:=
 {db with tds:=update db.tds hash (some td)}

def getBlock (db:ChainDb) (hash:Hash):Option Block:=
 match db.headers hash,db.bodies hash with
 | some header,some body=>some ⟨header,body⟩
 | _,_=>none

def getBlockReceipts (db:ChainDb) (hash:Hash):List Receipt:=(db.blockReceipts hash).getD []

def writeBlockReceipts (db:ChainDb) (hash:Hash) (receipts:List Receipt):ChainDb:=
 {db with blockReceipts:=update db.blockReceipts hash (some receipts)}

def writeReceipts (db:ChainDb) (receipts:List Receipt):ChainDb:=
 receipts.foldl (fun db r=>
  {db with receipts:=update db.receipts r.txHash (some r)}) db

def deleteTransaction (db:ChainDb) (tx:Hash):ChainDb:=
 {db with txs:=update db.txs tx none}

def deleteReceipt (db:ChainDb) (tx:Hash):ChainDb:=
 {db with receipts:=update db.receipts tx none}

variable (hash:Header→Hash)

def writeBody (db:ChainDb) (h:Hash) (body:Body):ChainDb:=
 {db with bodies:=update db.bodies h (some body)}

def writeHeader (db:ChainDb) (header:Header):ChainDb:=
 {db with headers:=update db.headers (hash header) (some header)}

/-- The body goes first, so that a stored header signals a complete block. -/
def writeBlock (db:ChainDb) (block:Block):ChainDb:=
 (db.writeBody (hash block.header) block.body).writeHeader hash block.header

def writeTransactions (db:ChainDb) (block:Block):ChainDb:=
 block.transactions.zipIdx.foldl (fun db tx=>
  let entry:TxMeta:=⟨hash block.header,block.number,tx.2⟩
  {db with txs:=update db.txs tx.1 (some entry)}) db

end ChainDb

inductive ChainError where
 | parentError (parent:Hash)
 | invalidOldChain
 | invalidNewChain
 deriving DecidableEq,Repr

inductive WriteStatus where
 | nonStatTy
 | canonStatTy
 | splitStatTy
 | sideStatTy
 deriving DecidableEq,Repr

structure BlockChain where
 chainDb:ChainDb
 genesisBlock:Block
 currentHeader:Header
 currentBlock:Block
 currentFastBlock:Block
 tdCache:Cache Hash ℕ
 blockCache:Cache Hash Block
 futureBlocks:Cache Hash Block

def tdCacheLimit:ℕ:=1024
def blockCacheLimit:ℕ:=256
def maxFutureBlocks:ℕ:=256

/-- `types.TxDifference`: the transactions of `a` that do not occur in `b`. -/
def txDifference (a b:List Hash):List Hash:=a.filter (·∉b)

variable (hash:Header→Hash)

/-- `WriteGenesisBlock` on an empty database. -/
def writeGenesisBlock (genesis:Block):ChainDb:=
 ((((ChainDb.empty.writeTd (hash genesis.header) genesis.difficulty).writeBlock hash genesis
  ).writeBlockReceipts (hash genesis.header) []
  ).writeCanonicalHash (hash genesis.header) genesis.number
  ).writeHeadBlockHash (hash genesis.header)

/-- `NewBlockChain` over a freshly written genesis block: no head header or head
fast block is stored yet, so `loadLastState` falls back to the head block. -/
def newBlockChain (genesis:Block):BlockChain where
 chainDb:=writeGenesisBlock hash genesis
 genesisBlock:=genesis
 currentHeader:=genesis.header
 currentBlock:=genesis
 currentFastBlock:=genesis
 tdCache:=Cache.new tdCacheLimit
 blockCache:=Cache.new blockCacheLimit
 futureBlocks:=Cache.new maxFutureBlocks

namespace BlockChain

def getTd (bc:BlockChain) (h:Hash):Option ℕ × BlockChain:=
 match bc.tdCache.get h with
 | (some td,cache)=>(some td,{bc with tdCache:=cache})
 | (none,cache)=>
  match bc.chainDb.tds h with
  | none=>(none,{bc with tdCache:=cache})
  | some td=>(some td,{bc with tdCache:=cache.add h td})

def getBlock (bc:BlockChain) (h:Hash):Option Block × BlockChain:=
 match bc.blockCache.get h with
 | (some block,cache)=>(some block,{bc with blockCache:=cache})
 | (none,cache)=>
  match bc.chainDb.getBlock h with
  | none=>(none,{bc with blockCache:=cache})
  | some block=>(some block,{bc with blockCache:=cache.add (hash block.header) block})

/-- `BlockChain.insert`: the other two heads follow only when the number was not
already assigned to this block. -/
def insert (bc:BlockChain) (block:Block):BlockChain:=let h:=hash block.header
 let updateHeads:=bc.chainDb.getCanonicalHash block.number≠h
 let db:=(bc.chainDb.writeCanonicalHash h block.number).writeHeadBlockHash h
 let bc:={bc with chainDb:=db,currentBlock:=block}
 if updateHeads then
  {bc with
   chainDb:=(bc.chainDb.writeHeadHeaderHash h).writeHeadFastBlockHash h
   currentHeader:=block.header
   currentFastBlock:=block}
 else bc

/-- The loop that reduces the higher chain to the number `n`. The blocks left
behind are collected, highest first. -/
def reduceTo (n:ℕ):ℕ→BlockChain→Option Block→List Block →
 Option (BlockChain × Option Block × List Block)
 | 0,_,_,_=>none
 | _+1,bc,none,passed=>some (bc,none,passed)
 | fuel+1,bc,some b,passed=>
  if b.number=n then some (bc,some b,passed)
  else
   let (parent,bc):=bc.getBlock hash b.parentHash
   reduceTo n fuel bc parent (passed++[b])

/-- The loop that walks both chains down in step until they meet. -/
def findCommonBlock:ℕ→BlockChain→Block→Block→List Block→List Block →
 Option (BlockChain × Except ChainError (Block × List Block × List Block))
 | 0,_,_,_,_,_=>none
 | fuel+1,bc,oldBlock,newBlock,oldChain,newChain=>
  if hash oldBlock.header=hash newBlock.header then
   some (bc,.ok (oldBlock,oldChain,newChain))
  else
   let (oldParent,bc):=bc.getBlock hash oldBlock.parentHash
   let (newParent,bc):=bc.getBlock hash newBlock.parentHash
   match oldParent,newParent with
   | none,_=>some (bc,.error .invalidOldChain)
   | some _,none=>some (bc,.error .invalidNewChain)
   | some o,some w=>
    findCommonBlock fuel bc o w (oldChain++[oldBlock]) (newChain++[newBlock])

def insertCanonical (bc:BlockChain) (block:Block):BlockChain:=let bc:=bc.insert hash block
 let db:=bc.chainDb.writeTransactions hash block
 {bc with chainDb:=db.writeReceipts (db.getBlockReceipts (hash block.header))}

def dropTransactions (bc:BlockChain) (txs:List Hash):BlockChain:=
 {bc with chainDb:=txs.foldl (fun db tx=>(db.deleteReceipt tx).deleteTransaction tx) bc.chainDb}

/-- The first loop of `reorg`: only the higher of the two chains is reduced. -/
def reduceHigher (fuel:ℕ) (bc:BlockChain) (oldBlock newBlock:Block):
 Option (BlockChain × Option Block × Option Block × List Block × List Block):=
 if oldBlock.number>newBlock.number then
  (bc.reduceTo hash newBlock.number fuel (some oldBlock) []).map
   (fun r=>(r.1,r.2.1,some newBlock,r.2.2,[]))
 else
  (bc.reduceTo hash oldBlock.number fuel (some newBlock) []).map
   (fun r=>(r.1,some oldBlock,r.2.1,[],r.2.2))

def reorg (bc:BlockChain) (oldBlock newBlock:Block):Option (BlockChain × Option ChainError):=
 let fuel:=oldBlock.number+newBlock.number+1
 match bc.reduceHigher hash fuel oldBlock newBlock with
 | none=>none
 | some (bc,none,_,_,_)=>some (bc,some .invalidOldChain)
 | some (bc,some _,none,_,_)=>some (bc,some .invalidNewChain)
 | some (bc,some oldBlock,some newBlock,oldChain,newChain)=>
  match bc.findCommonBlock hash fuel oldBlock newBlock oldChain newChain with
  | none=>none
  | some (bc,.error e)=>some (bc,some e)
  | some (bc,.ok (_,oldChain,newChain))=>
   let deletedTxs:=oldChain.flatMap Block.transactions
   let bc:=newChain.foldl (insertCanonical hash) bc
   let addedTxs:=newChain.flatMap Block.transactions
   some (bc.dropTransactions (txDifference deletedTxs addedTxs),none)

/-- The tail of `WriteBlock`: the block is stored whatever its status. -/
def storeBlock (bc:BlockChain) (block:Block) (td:ℕ):BlockChain:=
 let db:=(bc.chainDb.writeTd (hash block.header) td).writeBlock hash block
 {bc with chainDb:=db,futureBlocks:=bc.futureBlocks.remove (hash block.header)}

/-- The chain that `WriteBlock` leaves before it stores a heavier block. -/
def makeCanonical (bc:BlockChain) (block:Block):Option (BlockChain × Option ChainError):=
 if block.parentHash≠hash bc.currentBlock.header then
  match bc.reorg hash bc.currentBlock block with
  | none=>none
  | some (bc,some e)=>some (bc,some e)
  | some (bc,none)=>some (bc.insert hash block,none)
 else some (bc.insert hash block,none)

def writeBlock (bc:BlockChain) (block:Block):Option (BlockChain × WriteStatus × Option ChainError):=
 match bc.getTd block.parentHash with
 | (none,bc)=>some (bc,.nonStatTy,some (.parentError block.parentHash))
 | (some ptd,bc)=>
  let td:=block.difficulty+ptd
  match bc.getTd (hash bc.currentBlock.header) with
  | (none,_)=>none
  | (some headTd,bc)=>
   if td>headTd then
    match bc.makeCanonical hash block with
    | none=>none
    | some (bc,some e)=>some (bc,.nonStatTy,some e)
    | some (bc,none)=>some (bc.storeBlock hash block td,.canonStatTy,none)
   else some (bc.storeBlock hash block td,.sideStatTy,none)

end BlockChain

end GoCoupe.BlockChainModel
