import GoCoupe.RlpAcceptance

/-!
# Transactions, headers and blocks on the wire

`EncodeRLP` and `DecodeRLP` of `core/types/transaction.go` and `core/types/block.go`, with the
struct decoders and writers that the `rlp` package builds for them. Only the recipient of a
transaction, whose tag is "nil", is optional.
-/

namespace GoCoupe.BlockWireFormats

open RlpEncoding RlpStream Reading RlpTypedValues RlpAcceptance
open RlpRawSplitting hiding readKind

structure Transaction where
 accountNonce:BitVec 64
 price:ℤ
 gasLimit:ℤ
 recipient:Option (List.Vector UInt8 20)
 amount:ℤ
 payload:Bytes
 v:BitVec 8
 r:ℤ
 s:ℤ

structure Header where
 parentHash:List.Vector UInt8 32
 uncleHash:List.Vector UInt8 32
 coinbase:List.Vector UInt8 20
 root:List.Vector UInt8 32
 txHash:List.Vector UInt8 32
 receiptHash:List.Vector UInt8 32
 bloom:List.Vector UInt8 256
 difficulty:ℤ
 number:ℤ
 gasLimit:ℤ
 gasUsed:ℤ
 time:ℤ
 extra:Bytes
 mixDigest:List.Vector UInt8 32
 nonce:List.Vector UInt8 8

structure Block where
 header:Header
 transactions:List Transaction
 uncles:List Header

def hashType:GoType:=.byteArray 32

/-- Fields by name, for the errors. -/
def fieldsOf:List (String × GoType)→Fields
 | []=>.nil
 | f::fs=>.cons f.1 f.2 (fieldsOf fs)

def txdataType:GoType:=
 .struct (fieldsOf [("AccountNonce",.uint .w64),("Price",.bigInt),("GasLimit",.bigInt),
  ("Recipient",.byteArray 20),("Amount",.bigInt),("Payload",.bytes),("V",.uint .w8),
  ("R",.bigInt),("S",.bigInt)])

def headerType:GoType:=
 .struct (fieldsOf [("ParentHash",hashType),("UncleHash",hashType),("Coinbase",.byteArray 20),
  ("Root",hashType),("TxHash",hashType),("ReceiptHash",hashType),("Bloom",.byteArray 256),
  ("Difficulty",.bigInt),("Number",.bigInt),("GasLimit",.bigInt),("GasUsed",.bigInt),
  ("Time",.bigInt),("Extra",.bytes),("MixDigest",hashType),("Nonce",.byteArray 8)])

def extblockType:GoType:=
 .struct (fieldsOf [("Header",headerType),("Txs",.slice txdataType),("Uncles",.slice headerType)])

def txdataFields:Decoder Transaction:=do
 let accountNonce ← field txdataType "AccountNonce" (decodeUint .w64)
 let price ← field txdataType "Price" decodeBigInt
 let gasLimit ← field txdataType "GasLimit" decodeBigInt
 let recipient ← field txdataType "Recipient" (decodeOptionalPtr (decodeByteArray 20))
 let amount ← field txdataType "Amount" decodeBigInt
 let payload ← field txdataType "Payload" (wrap .bytes bytes)
 let v ← field txdataType "V" (decodeUint .w8)
 let r ← field txdataType "R" decodeBigInt
 let s ← field txdataType "S" decodeBigInt
 return ⟨accountNonce,price,gasLimit,recipient,amount,payload,v,r,s⟩

def decodeInto {α:Type} (typ:GoType) (dec:Decoder α):Decoder α:=mapError (nameTarget typ) dec

/-- `DecodeRLP` of a transaction and of a block: the kind ahead is asked for its size only. -/
def decodeSized {α:Type} (typ:GoType) (dec:Decoder α):Decoder α:=do
 let _ ← (observe kind:Decoder (Except StreamError (Kind × ℕ)))
 decodeInto typ dec

def decodeTransaction:Decoder Transaction:=decodeSized txdataType (structOf txdataType txdataFields)

def headerFields:Decoder Header:=do
 let parentHash ← field headerType "ParentHash" (decodeByteArray 32)
 let uncleHash ← field headerType "UncleHash" (decodeByteArray 32)
 let coinbase ← field headerType "Coinbase" (decodeByteArray 20)
 let root ← field headerType "Root" (decodeByteArray 32)
 let txHash ← field headerType "TxHash" (decodeByteArray 32)
 let receiptHash ← field headerType "ReceiptHash" (decodeByteArray 32)
 let bloom ← field headerType "Bloom" (decodeByteArray 256)
 let difficulty ← field headerType "Difficulty" decodeBigInt
 let number ← field headerType "Number" decodeBigInt
 let gasLimit ← field headerType "GasLimit" decodeBigInt
 let gasUsed ← field headerType "GasUsed" decodeBigInt
 let time ← field headerType "Time" decodeBigInt
 let extra ← field headerType "Extra" (wrap .bytes bytes)
 let mixDigest ← field headerType "MixDigest" (decodeByteArray 32)
 let nonce ← field headerType "Nonce" (decodeByteArray 8)
 return ⟨parentHash,uncleHash,coinbase,root,txHash,receiptHash,bloom,difficulty,number,
  gasLimit,gasUsed,time,extra,mixDigest,nonce⟩

def decodeHeader:Decoder Header:=structOf headerType headerFields

def extblockFields (fuel:ℕ):Decoder Block:=do
 let header ← field extblockType "Header" decodeHeader
 let txs ← field extblockType "Txs" (decodeListSlice fuel (.slice txdataType) decodeTransaction)
 let uncles ← field extblockType "Uncles" (decodeListSlice fuel (.slice headerType) decodeHeader)
 return ⟨header,txs,uncles⟩

def decodeBlock (fuel:ℕ):Decoder Block:=
 decodeSized extblockType (structOf extblockType (extblockFields fuel))

/-- `DecodeBytes` into a value with a decoder of its own. -/
def decodeBytesWith {α:Type} (typ:GoType) (dec:Decoder α) (b:Bytes):Option (Except DecodeError α):=
 match decodeInto typ dec (newStream b) with
 | none=>none
 | some (.error e,_)=>some (.error e)
 | some (.ok x,s)=>if s.r.length>0 then some (.error .moreThanOneValue) else some (.ok x)

def writePtr {n:ℕ} (x:Option (List.Vector UInt8 n)) (w:EncBuf):EncBuf:=
 match x with
 | none=>append w [0x80]
 | some b=>w.encodeString b.toList

def txdataWriter (tx:Transaction) (w:EncBuf):Writing:=do
 let w ← writeBigInt tx.price (writeUint tx.accountNonce.toNat w)
 let w ← writeBigInt tx.gasLimit w
 let w ← writeBigInt tx.amount (writePtr tx.recipient w)
 let w ← writeBigInt tx.r (writeUint tx.v.toNat (w.encodeString tx.payload))
 writeBigInt tx.s w

def writeTransaction (tx:Transaction):EncBuf→Writing:=writeList (txdataWriter tx)

def headerWriter (h:Header) (w:EncBuf):Writing:=do
 let w:=w.encodeString h.parentHash.toList
 let w:=w.encodeString h.uncleHash.toList
 let w:=w.encodeString h.coinbase.toList
 let w:=w.encodeString h.root.toList
 let w:=w.encodeString h.txHash.toList
 let w:=w.encodeString h.receiptHash.toList
 let w:=w.encodeString h.bloom.toList
 let w ← writeBigInt h.difficulty w
 let w ← writeBigInt h.number w
 let w ← writeBigInt h.gasLimit w
 let w ← writeBigInt h.gasUsed w
 let w ← writeBigInt h.time w
 let w:=w.encodeString h.extra
 let w:=w.encodeString h.mixDigest.toList
 return w.encodeString h.nonce.toList

def writeHeader (h:Header):EncBuf→Writing:=writeList (headerWriter h)

def extblockWriter (b:Block) (w:EncBuf):Writing:=do
 let w ← writeHeader b.header w
 let w ← writeList (writeElements writeTransaction b.transactions) w
 writeList (writeElements writeHeader b.uncles) w

def writeBlock (b:Block):EncBuf→Writing:=writeList (extblockWriter b)

def encodeWith (write:EncBuf→Writing):Except EncodeError (Option Bytes):=do
 return toBytes (← write .empty)

/-- `Transaction.Hash`; the hash of nothing if the encoder fails. -/
def txHash (keccak:Bytes→Hash) (tx:Transaction):Hash:=
 match encodeWith (writeTransaction tx) with
 | .ok (some b)=>keccak b
 | _=>keccak []

end GoCoupe.BlockWireFormats
