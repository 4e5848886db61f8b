import GoCoupe.NodeOrigins
import GoCoupe.RlpValueReading

/-!
# Sizes of neighbors packets

The nodes of an answer are sent in packets of `maxNeighbors` entries, a number that is computed for
addresses of sixteen bytes. The address of a node that others name is decoded with any length.
-/

namespace GoCoupe.NeighborPackets
open GuardedRuns DiscoveryBonding NodeOrigins RlpEncoding RlpValueReading BigEndianBytes List

/-- `NodeID` by the number that its bytes spell. -/
abbrev NodeID:=Fin (2^512)

/-- The IP address, which may have any length, and the UDP port. -/
structure Endpoint where
 ip:Bytes
 udp:UInt16
 deriving DecidableEq

abbrev Peer:=Node NodeID Endpoint

def rpcNode (n:Peer):Item:=
 .list [.string n.addr.ip,.string (shortest n.addr.udp.toNat),.string (shortest n.tcp.toNat),
  .string (fixed 64 n.id)]

def neighbors (nodes:List Peer) (expiration:UInt64):Item:=
 .list [.list (nodes.map rpcNode),.string (shortest expiration.toNat)]

def macSize:ℕ:=32
def sigSize:ℕ:=65
def headSize:ℕ:=macSize+sigSize

def maxSizeNode:Peer:=⟨0,⟨replicate 16 0,0xFFFF⟩,0xFFFF⟩

/-- The loop of `init` that stuffs a packet until it grows too large. -/
def countNeighbors:ℕ→ℕ→ℕ
 | 0,n=>n
 | fuel+1,n=>
  if 1280≤headSize+(encode (neighbors (replicate (n+1) maxSizeNode) 0xFFFFFFFFFFFFFFFF)).length+1 then n
  else countNeighbors fuel (n+1)

def maxNeighbors:ℕ:=countNeighbors 1280 0

lemma encodeString_length_le(b:Bytes):(encodeString b).length≤headsize b.length+b.length:=by
 unfold encodeString
 split
 ·split
  ·simp
  rw[length_append,puthead_length]
  rfl
 rw[length_append,puthead_length]

/-- The address is as long as one of IPv6, or shorter. -/
def Short (n:Peer):Prop:=n.addr.ip.length≤16

lemma encode_list_length(items:List Item):
 (encode (.list items)).length=headsize (encodeList items).length+(encodeList items).length:=by
 rw[encode,length_append,puthead_length]

variable {P:Params NodeID Endpoint}

def sampleParams:Params NodeID Endpoint:=⟨0,fun id=>id,fun _ a b=>compare a b,fun _=>true,maxNeighbors⟩

def longNode (id:NodeID) (length:ℕ):Peer:=⟨id,⟨replicate length 1,30303⟩,30303⟩

/-- The node is bonded with by process `k` and sends a pong from an address of its own. -/
def bondWith (k:ℕ) (n:Peer):List (Action NodeID Endpoint):=
 [.bond n,.begin k 0,.takeSlot k [],.packet 0 ⟨[10,0,0,1],30303⟩ n.id [] (.pong [] 100),.resume k 0,
  .timeout 0,.resume k 0,.finish k []]

instance vouched_decidable (s:Discovery NodeID Endpoint):
 ∀a,Decidable (Vouched sampleParams Short s a)
 | .packet now _ id _ (.pong _ exp)=>inferInstanceAs (Decidable (expired now exp=false →
  ∀b∈s.bonds,b.id=id→b.addr.ip.length≤16))
 | .stuff nodes=>inferInstanceAs (Decidable (∀n∈nodes,n.id≠0→n.addr.ip.length≤16))
 | .packet _ _ _ _ (.ping _ _) | .packet _ _ _ _ (.neighbors _ _) | .packet _ _ _ _ (.findnode _ _)
 | .bond _ | .begin _ _ | .takeSlot _ _ | .resume _ _ | .join _ | .finish _ _ | .evict _ _
 | .query _ _ | .queried _ | .timeout _ | .expire _ _ | .restart=>.isTrue trivial

def answered (length:ℕ):Option (List (List Peer)):=
 (exec (step sampleParams) (fresh NodeID Endpoint) (bondWith 0 (longNode 1 length)++
  bondWith 1 (longNode 2 length)++
  [.packet 0 ⟨[10,0,0,1],30303⟩ 1 [] (.findnode 1 100)])).map (fun s=>s.log.filterMap (fun e=>
   match e with
   | .sent _ (.neighbors nodes)=>some nodes
   | _=>none))

end GoCoupe.NeighborPackets
