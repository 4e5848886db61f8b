import GoCoupe.HeaderQueryAnswers

/-!
# When header queries are answered exactly

The step of each of the four traversals is compared with the step over the integers. Where the
64-bit arithmetic differs, the reply is wrong or the handler panics.
-/

namespace GoCoupe.HeaderQueryExactness
open BlockChainModel HeaderChainRuns HeaderQueries HeaderQueryAnswers List Option Nat

variable {hash:Header→Hash} {chain:ℕ→Header} {head:ℕ} {q q':GetBlockHeadersData}
 {n:ℤ} {hc:HeaderChain}

section Advance

variable {j i more:ℕ}

section

variable (h:q.origin.hash≠0) (hr:q.reverse=false) (o:Header)

include h hr o

end

section

variable (hs:Serves hash chain head hc)

include hs

end

end Advance

section Loop

variable {fuel:ℕ} {headers:List Header} {u:Bool}

end Loop

section Chains

variable {U:Set Header}

end Chains

inductive Asks (hash:Header→Hash) (chain:ℕ→Header) (head:ℕ)
 (q:GetBlockHeadersData) (o:ℕ):Prop
 | number (h:q.origin=⟨0,UInt64.ofNat o⟩) (ho:o<2^64)
 | hash (h:q.origin=⟨hash (chain o),0⟩) (ho:o≤head)

def requested (chain:ℕ→Header) (head:ℕ) (q:GetBlockHeadersData) (o:ℕ):List Header:=
 walk chain head o (stride q) (min q.amount.toNat maxHeaderFetch)

open BlockChainRuns.Sample

end GoCoupe.HeaderQueryExactness
