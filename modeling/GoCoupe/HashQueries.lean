import GoCoupe.HeaderQueryAnswers

/-!
# Answering hash queries by number

The `GetBlockHashesFromNumberMsg` case of `handleMsg` in `eth/handler.go`: the last block of the
range is found by 64-bit arithmetic, and the hashes are collected from there towards genesis.
-/

namespace GoCoupe.HashQueries
open BlockChainModel BlockChainInvariants HeaderQueries HeaderQueryAnswers List Function Option Nat

variable (hash:Header→Hash)

def getBlock (h:Hash):Reading (Option Block):=fun hc=>
 some ((hc.chain.getBlock hash h).1,{hc with chain:=(hc.chain.getBlock hash h).2})

def currentBlock:Reading Block:=fun hc=>some (hc.chain.currentBlock,hc)

variable {hash} {chain:ℕ→Header} {head:ℕ} {hc:HeaderChain} {number amount:UInt64} {m:ℕ}

open BlockChainRuns.Sample

end GoCoupe.HashQueries
