import GoCoupe.CommonTypes
import Mathlib.Logic.Function.Basic

/-!
# Header and uncle validation

`ValidateHeader` and `VerifyUncles`, `CalcDifficulty` and `AccumulateRewards` of `core`. Header
hashing, the proof of work and the clock are parameters. `CalcDifficulty` may add to the big
integer that `MinimumDifficulty` points to, so the minimum is passed along.
-/

namespace GoCoupe.HeaderValidation

/-- `rest` stands for the fields that validation does not read. -/
structure Header where
 parentHash:Hash
 coinbase:Address
 difficulty:ℤ
 number:ℤ
 gasLimit:ℤ
 time:ℤ
 extra:Bytes
 rest:ℕ
 deriving DecidableEq

structure Block where
 header:Header
 uncles:List Header
 deriving DecidableEq

def maximumExtraDataSize:ℤ:=32
def difficultyBoundDivisor:ℤ:=2048
def durationLimit:ℤ:=13
def minGasLimit:ℤ:=5000
def gasLimitBoundDivisor:ℤ:=1024
def expDiffPeriod:ℤ:=100000
def maxBig:ℤ:=2^256-1

/-- The value of `MinimumDifficulty` when the program starts. -/
def minimumDifficulty:ℤ:=131072

def uint64 (x:ℤ):ℕ:=(x%2^64).toNat

/-- The difficulty, and the minimum afterwards. A difficulty below the minimum is replaced by
the pointer to it, and what is then added for the period is added to both. -/
def calcDifficulty (time parentTime:ℕ) (parentNumber parentDiff minimum:ℤ):ℤ × ℤ:=
 let adjust:=parentDiff/difficultyBoundDivisor
 let diff:=if (time:ℤ)-parentTime<durationLimit then parentDiff+adjust else parentDiff-adjust
 let shared:Bool:=diff < minimum
 let diff:=if shared then minimum else diff
 let periodCount:=(parentNumber+1)/expDiffPeriod
 if periodCount>1 then
  let diff:=diff+2^(periodCount-2).toNat
  let minimum:=if shared then diff else minimum
  (if diff < minimum then minimum else diff,minimum)
 else (diff,minimum)

inductive HeaderError where
 | extraTooLong (length:ℕ)
 | blockTSTooBig
 | blockFuture
 | blockEqualTS
 | difficultyCheck (difficulty expd:ℤ)
 | gasLimitCheck (gasLimit a b:ℤ)
 | blockNumber
 | blockNonce (number:ℤ) (hash:Hash)
 deriving DecidableEq

variable (hash:Header→Hash) (verify:Header→Bool)

/-- The checks behind the difficulty. -/
def validateRest (header parent:Header) (checkPow:Bool):Except HeaderError Unit:=
 let a:ℤ:=(parent.gasLimit-header.gasLimit).natAbs
 let b:=parent.gasLimit/gasLimitBoundDivisor
 if ¬a<b ∨ header.gasLimit < minGasLimit then .error (.gasLimitCheck header.gasLimit a b)
 else if header.number-parent.number≠1 then .error .blockNumber
 else if checkPow ∧ ¬verify header then .error (.blockNonce header.number (hash header))
 else .ok ()

def validateHeader (now:ℤ) (header parent:Header) (checkPow uncle:Bool) (minimum:ℤ):
 Except HeaderError Unit × ℤ:=
 if header.extra.length>maximumExtraDataSize then
  (.error (.extraTooLong header.extra.length),minimum)
 else if uncle ∧ header.time>maxBig then (.error .blockTSTooBig,minimum)
 else if ¬uncle ∧ header.time>now then (.error .blockFuture,minimum)
 else if ¬header.time>parent.time then (.error .blockEqualTS,minimum)
 else
  let (expd,minimum):=calcDifficulty (uint64 header.time) (uint64 parent.time)
   parent.number parent.difficulty minimum
  if expd≠header.difficulty then
   (.error (.difficultyCheck header.difficulty expd),minimum)
  else (validateRest hash verify header parent checkPow,minimum)

inductive UncleError where
 | tooManyUncles (n:ℕ)
 | notUnique (i:ℕ) (hash:Hash)
 | isAncestor (i:ℕ) (hash:Hash)
 | parentNotAncestor (i:ℕ) (hash parent:Hash)
 | headerInvalid (i:ℕ) (hash:Hash) (e:HeaderError)
 deriving DecidableEq

variable (getBlock:Hash→Option Block)

def getBlocksFromHash:ℕ→Hash→List Block
 | 0,_=>[]
 | n+1,h=>
  match getBlock h with
  | none=>[]
  | some block=>block::getBlocksFromHash n block.header.parentHash

/-- The map that `VerifyUncles` fills with blocks by hash. -/
def addAncestors (blocks:List Block) (ancestors:Hash→Option Block):Hash→Option Block:=
 blocks.foldl (fun m b=>Function.update m (hash b.header) (some b)) ancestors

def uncleHashes (blocks:List Block):List Hash:=blocks.flatMap fun b=>b.uncles.map hash

/-- The loop over the uncles, from the `i`-th on; `seen` is the set of hashes so far. -/
def verifyUnclesFrom (ancestors:Hash→Option Block) (now:ℤ) (parent:Header):
 ℕ→List Header→List Hash→ℤ→Except UncleError Unit × ℤ
 | _,[],_,minimum=>(.ok (),minimum)
 | i,uncle::uncles,seen,minimum=>
  let h:=hash uncle
  if h∈seen then (.error (.notUnique i h),minimum)
  else if (ancestors h).isSome then (.error (.isAncestor i h),minimum)
  else
   match ancestors uncle.parentHash with
   | none=>(.error (.parentNotAncestor i h uncle.parentHash),minimum)
   | some ancestor=>
    if uncle.parentHash=hash parent then
     (.error (.parentNotAncestor i h uncle.parentHash),minimum)
    else
     match validateHeader hash verify now uncle ancestor.header true true minimum with
     | (.error e,minimum)=>(.error (.headerInvalid i h e),minimum)
     | (.ok _,minimum)=>
      verifyUnclesFrom ancestors now parent (i+1) uncles (h::seen) minimum

def verifyUncles (now:ℤ) (block parent:Block) (minimum:ℤ):Except UncleError Unit × ℤ:=
 if block.uncles.length>2 then (.error (.tooManyUncles block.uncles.length),minimum)
 else
  let blocks:=getBlocksFromHash getBlock 7 block.header.parentHash
  let ancestors:=addAncestors hash (blocks++[block]) fun _=>none
  let seen:=uncleHashes hash blocks++[hash block.header]
  verifyUnclesFrom hash verify ancestors now parent.header 0 block.uncles seen minimum

def blockReward:ℤ:=5000000000000000000

/-- The calls of `AddBalance` for the uncles and then for the miner. -/
def accumulateRewardsFrom (header:Header):List Header→ℤ→List (Address × ℤ)
 | [],reward=>[(header.coinbase,reward)]
 | uncle::uncles,reward=>
  (uncle.coinbase,(uncle.number+8-header.number)*blockReward/8) ::
   accumulateRewardsFrom header uncles (reward+blockReward/32)

def accumulateRewards (header:Header) (uncles:List Header):List (Address × ℤ):=
 accumulateRewardsFrom header uncles blockReward

end GoCoupe.HeaderValidation
