import GoCoupe.TrieOperations

/-!
# Merkle proofs

A translation of `trie/proof.go`. A proof is the list of the encoded nodes on the path to a
key, without those that are embedded in their parents. A call that panics has the result
`none`; the nil proof is `none` inside.
-/

namespace GoCoupe.MerkleProofs
open HexPrefixKeys RlpEncoding TrieNodes TrieOperations

/-- The first loop of `Trie.Prove`: the nodes on the path to the key. -/
def pathNodes:ℕ→Store→Node→List Nibble→Option (Option (List Node) × Store)
 | _,st,_,[]=>some (some [],st)
 | 0,_,_,_::_=>none
 | fuel+1,st,tn,a::key=>
  match tn with
  | .shortNode nkey nval=>
   if nkey <+: a::key then do
    let (nodes,st) ← pathNodes fuel st nval ((a::key).drop nkey.length)
    pure (nodes.map (.shortNode nkey nval::·),st)
   else some (none,st)
  | .fullNode cs=>do
   let (nodes,st) ← pathNodes fuel st (cs a) key
   pure (nodes.map (.fullNode cs::·),st)
  | .nil=>some (none,st)
  | .hashNode h=>do
   let (n,st) ← resolveHash st h
   pathNodes fuel st n (a::key)
  | .valueNode _=>none

def Collapsed.isHash:Collapsed→Bool
 | .hashNode _=>true
 | _=>false

/-- The walk of `VerifyProof` inside one decoded node. -/
def get:Node→List Nibble→Option (List Nibble × Node)
 | .valueNode v,[]=>some ([],.valueNode v)
 | _,[]=>none
 | .shortNode nkey nval,key=>
  if nkey <+: key then get nval (key.drop nkey.length) else some ([],.nil)
 | .fullNode cs,a::key=>get (cs a) key
 | .hashNode h,key=>some (key,.hashNode h)
 | .nil,key=>some (key,.nil)
 | .valueNode _,_=>none

inductive ProofError where
 | hashMismatch (i:ℕ)
 | badNode (i:ℕ) (e:DecodeError)
 | keyMismatch (i:ℕ)
 | additionalNodes
 | unexpectedEnd

variable (sha3:Bytes→Bytes)

/-- The second loop of `Trie.Prove`; the node at position 0 is always included. -/
def proofElements:ℕ→List Node→Option (List Bytes)
 | _,[]=>some []
 | i,n::nodes=>do
  let (n,_) ← replaceChildren sha3 n none
  let (hn,_):=store sha3 n none false
  let proof ← proofElements (i+1) nodes
  if Collapsed.isHash hn ∨ i=0 then pure (rlpEncode n.toItem::proof) else pure proof

def prove (t:Trie) (st:Store) (key:Bytes):Option (Option (List Bytes) × Store):=do
 let key:=compactHexDecode key
 let (nodes,st) ← pathNodes (Trie.fuelFor key) st t.root key
 match nodes with
 | none=>pure (none,st)
 | some nodes=>do
  let proof ← proofElements sha3 0 nodes
  pure (some proof,st)

/-- The loop of `VerifyProof` from position `i` on. -/
def verifyFrom:ℕ→Bytes→List Nibble→List Bytes→Option (Except ProofError Bytes)
 | _,_,_,[]=>some (.error .unexpectedEnd)
 | i,wantHash,key,buf::proof=>
  if sha3 buf≠wantHash then some (.error (.hashMismatch i))
  else
   match (decodeNode buf).run with
   | none=>none
   | some (.error e)=>some (.error (.badNode i e))
   | some (.ok n)=>
    match get n key with
    | none=>none
    | some (_,.nil)=>some (.error (.keyMismatch i))
    | some (keyrest,.hashNode cld)=>verifyFrom (i+1) cld keyrest proof
    | some (_,.valueNode cld)=>
     if proof.length≠0 then some (.error .additionalNodes) else some (.ok cld)
    | some _=>verifyFrom (i+1) wantHash key proof

def verifyProof (rootHash key:Bytes) (proof:List Bytes):Option (Except ProofError Bytes):=
 verifyFrom sha3 0 rootHash (compactHexDecode key) proof

end GoCoupe.MerkleProofs
