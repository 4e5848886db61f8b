import GoCoupe.LogBlooms

/-!
# Log filters

`eth/filters/filter.go`: the plain scan over a range, and the search that skips the bins whose
mipmap bloom has none of the wanted addresses. Block numbers wrap around at 64 bits; a
dereferenced nil block is `none`.
-/

namespace GoCoupe.LogFilters
open DatabaseKeys LogBlooms

structure FilterBlock where
 number:UInt64
 hash:Hash
 bloom:ℕ

/-- The database of a filter. The zero hash stands for a number without a canonical block. -/
structure FilterDb where
 db:Db
 headBlockHash:Hash
 canonicalHash:UInt64→Hash
 block:Hash→Option FilterBlock
 receipts:Hash→List Receipt

structure Filter where
 beginBlock:ℤ
 endBlock:ℤ
 addresses:List Address
 topics:List (List Hash)

def includes (addresses:List Address) (a:Address):Bool:=addresses.any (· == a)

/-- One position of the topics of a log against the alternatives for it. -/
def matchesTopic (alternatives:List Hash) (topic:Hash):Bool:=
 alternatives.any (fun wanted=>wanted == 0 || topic == wanted)

def Filter.matchesLog (f:Filter) (log:Log):Bool:=
 (f.addresses.isEmpty || includes f.addresses log.address) &&
  (decide (f.topics.length≤log.topics.length) &&
   (f.topics.zip log.topics).all (fun p=>matchesTopic p.1 p.2))

def Filter.filterLogs (f:Filter) (logs:List Log):List Log:=logs.filter f.matchesLog

/-- The number that the conversion `float64(n)` yields: to nearest, ties to even. -/
def float64 (n:UInt64):ℕ:=let ulp:=2^(n.toNat.log2-52)
 let quotient:=n.toNat/ulp
 let rest:=n.toNat%ulp
 if 2*rest<ulp ∨ (2*rest=ulp ∧ quotient%2=0) then quotient*ulp
 else (quotient+1)*ulp

/-- The conversion `uint64(n)` of a float that is a whole number below `2 ^ 64`. -/
def uint64 (n:ℕ):UInt64:=UInt64.ofNat n

variable (keccak:Bytes→Hash) (f:Filter) (db:FilterDb)

def Filter.bloomFilter (block:FilterBlock):Bool:=
 (f.addresses.isEmpty ||
  f.addresses.any (fun a=>bloomLookup keccak block.bloom (addressBytes a))) &&
  f.topics.all (fun sub=>sub.any (fun topic=>
   topic == 0 || bloomLookup keccak block.bloom (hashBytes topic)))

def FilterDb.logsOf (block:FilterBlock):List Log:=(db.receipts block.hash).flatMap Receipt.logs

/-- The turns of `getLogs` from the number `i` on. -/
def Filter.getLogsFrom:ℕ→UInt64→Option (List Log)
 | 0,_=>some []
 | n+1,i=>
  if db.canonicalHash i=0 then some []
  else
   match db.block (db.canonicalHash i) with
   | none=>none
   | some block=>
    (Filter.getLogsFrom n (i+1)).map (fun logs=>
     (if f.bloomFilter keccak block then f.filterLogs (db.logsOf block) else [])++logs)

def Filter.getLogs (start finish:UInt64):Option (List Log):=
 f.getLogsFrom keccak db (finish.toNat+1-start.toNat) start

/-- One turn of the loop of `mipFind`: a bin whose bloom has one of the addresses is searched by
`resolve`, in the part of it that lies in the range. -/
def Filter.mipBin (resolve:UInt64→UInt64→Option (List Log))
 (level start finish num:UInt64):Option (List Log):=
 let bloom:=getMipmapBloom db.db num level
 if f.addresses.any (fun a=>testBytes keccak bloom (addressBytes a)) then
  resolve (uint64 (max (float64 num) (float64 start)))
   (uint64 (min (float64 (num+level-1)) (float64 finish)))
 else some []

/-- The loop of `mipFind` over the bins of one level. -/
def Filter.mipBins (resolve:UInt64→UInt64→Option (List Log)) (level start finish:UInt64):
 ℕ→UInt64→Option (List Log)
 | 0,_=>none
 | fuel+1,num=>
  if num≤finish then do
   let found ← f.mipBin keccak db resolve level start finish num
   let rest ← Filter.mipBins resolve level start finish fuel (num+level)
   some (found++rest)
  else some []

def Filter.mipLevels (fuel:ℕ):List UInt64→UInt64→UInt64→Option (List Log)
 | [],_,_=>none
 | [level],start,finish=>
  f.mipBins keccak db (f.getLogs keccak db) level start finish fuel (start/level*level)
 | level::levels,start,finish=>
  f.mipBins keccak db (Filter.mipLevels fuel levels) level start finish fuel
   (start/level*level)

/-- `mipFind`, whose loops take at most `fuel` turns each. -/
def Filter.mipFind (fuel:ℕ) (start finish:UInt64) (depth:ℕ):Option (List Log):=
 f.mipLevels keccak db fuel (mipMapLevels.drop depth) start finish

/-- `uint64(n)` for an `int64`, with -1 for the latest block. -/
def FilterDb.blockNo (n:ℤ):Option UInt64:=
 if n = -1 then (db.block db.headBlockHash).map FilterBlock.number
 else some (UInt64.ofNat (n%2^64).toNat)

def Filter.find (fuel:ℕ):Option (List Log):=do
 let beginBlockNo ← db.blockNo f.beginBlock
 let endBlockNo ← db.blockNo f.endBlock
 if f.addresses.isEmpty then f.getLogs keccak db beginBlockNo endBlockNo
 else f.mipFind keccak db fuel beginBlockNo endBlockNo 0

end GoCoupe.LogFilters
