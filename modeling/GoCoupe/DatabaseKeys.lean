import GoCoupe.RlpEncoding
import Mathlib.Logic.Function.Basic

/-!
# The items of the shared database and their keys

`core/database_util.go` and the state commit keep all their data in one key-value store.
Contents are represented by their encodings, and a batch by the list of its writes.
-/

namespace GoCoupe.DatabaseKeys
open BigEndianBytes RlpEncoding

abbrev Db:=Bytes→Option Bytes

inductive DbItem where
 | canonicalHash (number:UInt64)
 | headHeaderHash
 | headBlockHash
 | headFastBlockHash
 | header (hash:Hash)
 | body (hash:Hash)
 | td (hash:Hash)
 | blockReceipts (hash:Hash)
 | transaction (hash:Hash)
 | txMeta (hash:Hash)
 | receipt (hash:Hash)
 | mipmapBloom (level bin:UInt64)
 | trieNode (hash:Hash)
 | code (hash:Hash)
 deriving DecidableEq

def ascii (s:String):Bytes:=s.toList.map (UInt8.ofNat ·.toNat)

def headHeaderKey:Bytes:=ascii "LastHeader"
def headBlockKey:Bytes:=ascii "LastBlock"
def headFastKey:Bytes:=ascii "LastFast"

def blockPrefix:Bytes:=ascii "block-"
def blockNumPrefix:Bytes:=ascii "block-num-"

def headerSuffix:Bytes:=ascii "-header"
def bodySuffix:Bytes:=ascii "-body"
def tdSuffix:Bytes:=ascii "-td"

def txMetaSuffix:Bytes:=[0x01]
def receiptsPrefix:Bytes:=ascii "receipts-"
def blockReceiptsPrefix:Bytes:=ascii "receipts-block-"

def mipmapPre:Bytes:=ascii "mipmap-log-bloom-"
def mipMapLevels:List UInt64:=[1000000,500000,100000,50000,1000]

def hashBytes (h:Hash):Bytes:=fixed 32 h

def int64 (n:UInt64):ℤ:=if n.toNat<2^63 then n.toNat else n.toNat-2^64

/-- `big.NewInt(int64(number)).Bytes()` is the shortest spelling of the absolute value. -/
def DbItem.key:DbItem→Bytes
 | .canonicalHash number=>blockNumPrefix++shortest (int64 number).natAbs
 | .headHeaderHash=>headHeaderKey
 | .headBlockHash=>headBlockKey
 | .headFastBlockHash=>headFastKey
 | .header hash=>(blockPrefix++hashBytes hash)++headerSuffix
 | .body hash=>(blockPrefix++hashBytes hash)++bodySuffix
 | .td hash=>(blockPrefix++hashBytes hash)++tdSuffix
 | .blockReceipts hash=>blockReceiptsPrefix++hashBytes hash
 | .transaction hash=>hashBytes hash
 | .txMeta hash=>hashBytes hash++txMetaSuffix
 | .receipt hash=>receiptsPrefix++hashBytes hash
 | .mipmapBloom level bin=>mipmapPre++(fixed 8 level.toNat++shortest bin.toNat)
 | .trieNode hash=>hashBytes hash
 | .code hash=>hashBytes hash

def mipmapItem (number level:UInt64):DbItem:=.mipmapBloom level (number/level*level)

abbrev View:=DbItem→Option Bytes

def view (db:Db):View:=fun i=>db i.key

inductive Query where
 | canonicalHash (number:UInt64)
 | headHeaderHash
 | headBlockHash
 | headFastBlockHash
 | headerRLP (hash:Hash)
 | bodyRLP (hash:Hash)
 | td (hash:Hash)
 | blockReceipts (hash:Hash)
 | transaction (hash:Hash)
 | receipt (hash:Hash)
 | mipmapBloom (number level:UInt64)
 | trieNode (hash:Hash)
 | code (hash:Hash)

/-- An empty entry reads as a missing one. -/
def found:Option Bytes→Option Bytes
 | some (x::xs)=>some (x::xs)
 | _=>none

/-- The accessors that read, each up to the decoding of what it finds. -/
def View.answer (s:View):Query→List (Option Bytes)
 | .canonicalHash number=>[found (s (.canonicalHash number))]
 | .headHeaderHash=>[found (s .headHeaderHash)]
 | .headBlockHash=>[found (s .headBlockHash)]
 | .headFastBlockHash=>[found (s .headFastBlockHash)]
 | .headerRLP hash=>[found (s (.header hash))]
 | .bodyRLP hash=>[found (s (.body hash))]
 | .td hash=>[found (s (.td hash))]
 | .blockReceipts hash=>[found (s (.blockReceipts hash))]
 | .transaction hash=>
  match found (s (.transaction hash)),found (s (.txMeta hash)) with
  | some tx,some entry=>[some tx,some entry]
  | _,_=>[none]
 | .receipt hash=>[found (s (.receipt hash))]
 | .mipmapBloom number level=>[found (s (mipmapItem number level))]
 | .trieNode hash=>[found (s (.trieNode hash))]
 | .code hash=>[found (s (.code hash))]

/-- The accessors that write and delete, and the two kinds of writes of a state commit. -/
inductive Op where
 | writeCanonicalHash (hash:Hash) (number:UInt64)
 | writeHeadHeaderHash (hash:Hash)
 | writeHeadBlockHash (hash:Hash)
 | writeHeadFastBlockHash (hash:Hash)
 | writeHeader (header:Bytes)
 | writeBody (hash:Hash) (body:Bytes)
 | writeTd (hash:Hash) (td:Bytes)
 | writeBlockReceipts (hash:Hash) (receipts:Bytes)
 | writeTransactions (block:Hash) (number:UInt64) (txs:List Bytes)
 | writeReceipts (receipts:List (Hash × Bytes))
 | writeMipmapBloom (number:UInt64) (logs:List Address)
 | deleteCanonicalHash (number:UInt64)
 | deleteHeader (hash:Hash)
 | deleteBody (hash:Hash)
 | deleteTd (hash:Hash)
 | deleteBlock (hash:Hash)
 | deleteBlockReceipts (hash:Hash)
 | deleteTransaction (hash:Hash)
 | deleteReceipt (hash:Hash)
 | commitNode (node:Bytes)
 | updateStateObject (code:Bytes)

variable (keccak:Bytes→Hash)

/-- The number whose three bits stand for a byte string in a bloom filter. -/
def bloom9 (b:Bytes):ℕ:=let h:=hashBytes (keccak b)
 [0,2,4].foldl (fun r i=>
  r ||| 1 <<< (((h.getD (i+1) 0).toNat+(h.getD i 0).toNat*256)%2048)) 0

/-- The bloom filter in `data` with the addresses added. -/
def addToBloom (data:Option Bytes) (logs:List Address):Bytes:=
 fixed 256 (logs.foldl (fun bloom a=>bloom ||| bloom9 keccak (shortest a))
  (value (data.getD [])))

def txMeta (block:Hash) (number:UInt64) (index:ℕ):Bytes:=
 encode (.list [.string (hashBytes block),.string (shortest number.toNat),.string (shortest index)])

/-- The writes of an operation, in order; `none` deletes. -/
def Op.writes (s:View):Op→List (DbItem × Option Bytes)
 | .writeCanonicalHash hash number=>[(.canonicalHash number,some (hashBytes hash))]
 | .writeHeadHeaderHash hash=>[(.headHeaderHash,some (hashBytes hash))]
 | .writeHeadBlockHash hash=>[(.headBlockHash,some (hashBytes hash))]
 | .writeHeadFastBlockHash hash=>[(.headFastBlockHash,some (hashBytes hash))]
 | .writeHeader header=>[(.header (keccak header),some header)]
 | .writeBody hash body=>[(.body hash,some body)]
 | .writeTd hash td=>[(.td hash,some td)]
 | .writeBlockReceipts hash receipts=>[(.blockReceipts hash,some receipts)]
 | .writeTransactions block number txs=>
  txs.zipIdx.flatMap (fun tx=>
   [(.transaction (keccak tx.1),some tx.1),(.txMeta (keccak tx.1),some (txMeta block number tx.2))])
 | .writeReceipts receipts=>receipts.map (fun r=>(.receipt r.1,some r.2))
 | .writeMipmapBloom number logs=>
  mipMapLevels.map (fun level=>
   (mipmapItem number level,some (addToBloom keccak (s (mipmapItem number level)) logs)))
 | .deleteCanonicalHash number=>[(.canonicalHash number,none)]
 | .deleteHeader hash=>[(.header hash,none)]
 | .deleteBody hash=>[(.body hash,none)]
 | .deleteTd hash=>[(.td hash,none)]
 | .deleteBlock hash=>
  [(.blockReceipts hash,none),(.header hash,none),(.body hash,none),(.td hash,none)]
 | .deleteBlockReceipts hash=>[(.blockReceipts hash,none)]
 | .deleteTransaction hash=>[(.transaction hash,none),(.txMeta hash,none)]
 | .deleteReceipt hash=>[(.receipt hash,none)]
 | .commitNode node=>[(.trieNode (keccak node),some node)]
 | .updateStateObject code=>[(.code (keccak code),some code)]

def write (db:Db) (w:DbItem × Option Bytes):Db:=Function.update db w.1.key w.2

def step (db:Db) (op:Op):Db:=(op.writes keccak (view db)).foldl write db

def run (ops:List Op):Db:=ops.foldl (step keccak) (fun _=>none)

end GoCoupe.DatabaseKeys
