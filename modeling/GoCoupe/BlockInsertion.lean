import GoCoupe.BlockChainModel

/-!
# Inserting validated blocks

The part of `BlockChain.InsertChain` that follows validation and processing of a block, with
the accessors that read a transaction and its receipt back.
-/

namespace GoCoupe.BlockChainModel

namespace ChainDb

/-- The transaction with its position; a transaction is represented by its hash. -/
def getTransaction (db:ChainDb) (tx:Hash):Option (Hash × TxMeta):=
 (db.txs tx).map (fun entry=>(tx,entry))

def getReceipt (db:ChainDb) (tx:Hash):Option Receipt:=db.receipts tx

end ChainDb

namespace BlockChain

variable (hash:Header→Hash)

/-- One turn of the loop of `InsertChain`, given the receipts that processing the block
returned. -/
def insertBlock (bc:BlockChain) (block:Block) (receipts:List Receipt):
 Option (BlockChain × Option ChainError):=
 let bc:={bc with chainDb:=bc.chainDb.writeBlockReceipts (hash block.header) receipts}
 match bc.writeBlock hash block with
 | none=>none
 | some (bc,_,some e)=>some (bc,some e)
 | some (bc,.canonStatTy,none)=>
  let db:=(bc.chainDb.writeTransactions hash block).writeReceipts receipts
  some ({bc with chainDb:=db},none)
 | some (bc,_,none)=>some (bc,none)

end BlockChain

end GoCoupe.BlockChainModel
