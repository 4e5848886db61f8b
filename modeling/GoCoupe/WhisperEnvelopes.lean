import GoCoupe.RlpTypedValues
import Mathlib.Data.List.AList

/-!
# Envelopes of the whisper protocol

The files of `whisper` and the encryption of `crypto/ecies/ecies.go` with the parameters of
secp256k1: keys of 16 bytes, AES in counter mode, SHA-256. `none` is a panic; `Recover` catches
its own.
-/

namespace GoCoupe.WhisperEnvelopes

open BigEndianBytes RlpEncoding RlpStream Reading RlpTypedValues List Option

structure Primitives (Priv Pub Rand:Type) where
 publicKey:Priv→Pub
  /-- `elliptic.Marshal`, with the format byte. -/
 marshal:Pub→Bytes
 unmarshal:Bytes→Option Pub
 isOnCurve:Pub→Bool
  /-- The key that is drawn for one message. -/
 generateKey:Rand→Priv
  /-- `GenerateShared` for two keys of 16 bytes. -/
 generateShared:Priv→Pub→Option Bytes
 sha256:Bytes→Bytes
 hmac:Bytes→Bytes→Bytes
 generateIV:Rand→Bytes
  /-- `XORKeyStream` under a key and an initialisation vector. -/
 xorKeyStream:Bytes→Bytes→Bytes→Bytes
 sha3:Bytes→Hash
 sign:Rand→Bytes→Priv→Option Bytes
 recoverPubkey:Bytes→Bytes→Option Bytes

variable {Priv Pub Rand:Type} (P:Primitives Priv Pub Rand)

inductive EciesError where
 | invalidMessage
 | invalidPublicKey
 | invalidCurve
 | pointAtInfinity
 deriving DecidableEq

/-- `concatKDF` for 32 bytes, which takes one round. -/
def concatKDF (z:Bytes):Bytes:=(P.sha256 ([0,0,0,1]++z)).take 32

def cipherKey (z:Bytes):Bytes:=(concatKDF P z).take 16

def macKey (z:Bytes):Bytes:=P.sha256 ((concatKDF P z).drop 16)

def symEncrypt (rand:Rand) (key m:Bytes):Bytes:=
 P.generateIV rand++P.xorKeyStream key (P.generateIV rand) m

/-- The buffer of the text is made with the length of what follows the first 16 bytes, and a
negative length panics. The slice of these bytes reaches into the tag and does not. -/
def symDecrypt (key ct:Bytes):Option Bytes:=
 if ct.length<16 then none else some (P.xorKeyStream key (ct.take 16) (ct.drop 16))

/-- `Encrypt`. A text of no bytes leaves without an error and without a ciphertext. -/
def encrypt (rand:Rand) (pub:Pub) (m:Bytes):Except EciesError Bytes:=
 match P.generateShared (P.generateKey rand) pub with
 | none=>.error .pointAtInfinity
 | some z=>
  let em:=symEncrypt P rand (cipherKey P z) m
  if em.length≤16 then .ok []
  else .ok (P.marshal (P.publicKey (P.generateKey rand))++(em++P.hmac (macKey P z) em))

/-- `Decrypt` from the point on. -/
def decryptFrom (key:Priv) (R:Pub) (c:Bytes):Option (Except EciesError Bytes):=
 if P.isOnCurve R=false then some (.error .invalidCurve)
 else
  match P.generateShared key R with
  | none=>some (.error .pointAtInfinity)
  | some z=>
   let ct:=(c.take (c.length-32)).drop 65
   if c.drop (c.length-32)=P.hmac (macKey P z) ct then
    (symDecrypt P (cipherKey P z) ct).map .ok
   else some (.error .invalidMessage)

def decrypt (key:Priv) (c:Bytes):Option (Except EciesError Bytes):=
 match c with
 | []=>some (.error .invalidMessage)
 | b::_=>
  if b=2 ∨ b=3 ∨ b=4 then
   if c.length<65+32+1 then some (.error .invalidMessage)
   else
    match P.unmarshal (c.take 65) with
    | none=>some (.error .invalidPublicKey)
    | some R=>decryptFrom P key R c
  else some (.error .invalidPublicKey)

abbrev Topic:=List.Vector UInt8 4

def signatureFlag:UInt8:=0x80
def signatureLength:ℕ:=65

structure Message (Pub:Type) where
 flags:UInt8
 signature:Option Bytes
 payload:Bytes
 sent:BitVec 32
 ttl:BitVec 32
 recipient:Option Pub
 hash:Hash

structure Envelope where
 expiry:BitVec 32
 ttl:BitVec 32
 topics:List Topic
 data:Bytes
 nonce:BitVec 32
  /-- The hash if it has been computed, or zero. -/
 cached:Hash

def Message.checksum (m:Message Pub):Bytes:=fixed 32 (P.sha3 (m.flags::m.payload)).val

/-- `Recover`. A recovered key that is no point has no coordinates. -/
def Message.recover (m:Message Pub):Option (Option Pub):=
 m.signature.bind fun sig=>(P.recoverPubkey (m.checksum P) sig).map P.unmarshal

def Envelope.item (e:Envelope):Item:=
 .list [.string (shortest e.expiry.toNat),.string (shortest e.ttl.toNat),
  .list (e.topics.map fun t=>.string t.toList),.string e.data,
  .string (shortest e.nonce.toNat)]

def Envelope.hash (e:Envelope):Hash:=if e.cached=0 then P.sha3 (encode e.item) else e.cached

/-- The signature, if the flag announces one, and what follows it. -/
def splitData (flags:UInt8) (data:Bytes):Option (Option Bytes × Bytes):=
 if flags &&& signatureFlag=signatureFlag then
  if data.length < signatureLength then none
  else some (some (data.take signatureLength),data.drop signatureLength)
 else some (none,data)

/-- What `Open` returns: a message, a message with `ErrInvalidPublicKey`, or another error. -/
inductive Opened (Pub:Type) where
 | message (m:Message Pub)
 | cleartext (m:Message Pub)
 | failed

def Message.decrypted (m:Message Pub):Except EciesError Bytes→Opened Pub
 | .ok cleartext=>.message {m with payload:=cleartext}
 | .error .invalidPublicKey=>.cleartext m
 | .error _=>.failed

def Envelope.open (e:Envelope) (key:Option Priv):Option (Opened Pub):=
 match e.data with
 | []=>none
 | flags::data=>
  match splitData flags data with
  | none=>some .failed
  | some (signature,payload)=>
   let m:Message Pub:=⟨flags,signature,payload,e.expiry-e.ttl,e.ttl,none,e.hash P⟩
   match key with
   | none=>some (.message m)
   | some key=>(decrypt P key payload).map m.decrypted

/-- The loop of `Whisper.open` over the identities, in the order in which they are visited. -/
def openWith (e:Envelope):List Priv→Option (Option (Message Pub))
 | []=>some none
 | key::keys=>
  match e.open P (some key) with
  | none=>none
  | some (.message m)=>some (some {m with recipient:=some (P.publicKey key)})
  | some (.cleartext m)=>some (some m)
  | some .failed=>openWith e keys

def openAny (e:Envelope) (keys:List Priv):Option (Option (Message Pub)):=
 if keys=[] then
  (e.open P (none:Option Priv)).map fun
   | .message m=>some m
   | _=>none
 else openWith P e keys

/-- `filterer`, with a topic matcher as its list of conditions. -/
structure Filterer where
 recipient:Bytes
 sender:Bytes
 conditions:List (List Topic)

def createFilter (m:Message Pub) (topics:List Topic):Filterer where
 recipient:=(m.recipient.map P.marshal).getD []
 sender:=((m.recover P).join.map P.marshal).getD []
 conditions:=topics.map fun topic=>[topic]

/-- `Matches`; an index out of range panics. -/
def topicsMatch (conditions:List (List Topic)) (topics:List Topic):Option Bool:=
 if topics.length<conditions.length then some false
 else (List.range (min topics.length conditions.length)).allM fun i=>do
  let condition ← conditions[i]?
  let topic ← topics[i]?
  return condition.isEmpty || decide (topic∈condition)

def Filterer.compare (self other:Filterer):Option Bool:=
 if self.recipient≠[] ∧ self.recipient≠other.recipient then some false
 else if self.sender≠[] ∧ self.sender≠other.sender then some false
 else topicsMatch self.conditions
  (other.conditions.map fun group=>group.headD (.replicate 4 0))

structure Node (Priv:Type) where
 keys:List Priv
 messages:AList fun _:Hash=>Envelope
 expirations:AList fun _:BitVec 32=>List Hash
 watchers:List Filterer

/-- `postEvent`, with the comparisons that the filter loop makes. -/
def postEvent (watchers:List Filterer) (order:List Priv) (e:Envelope):Option Unit:=
 (openAny P e order).bind fun
  | none=>some ()
  | some m=>watchers.forM fun w=>
   (w.compare (createFilter P m e.topics)).map fun _=>()

/-- `add`, and whether an event is posted. A missing set of hashes is a nil pointer. -/
def add (node:Node Priv) (e:Envelope):Option (Node Priv × Bool):=let hash:=e.hash P
 if hash∈node.messages then some (node,false)
 else
  let expirations:=if e.expiry∈node.expirations then node.expirations
   else node.expirations.insert e.expiry []
  (expirations.lookup e.expiry).map fun hashes=>
   ({node with
    messages:=node.messages.insert hash e
    expirations:=if hash∈hashes then expirations
     else expirations.insert e.expiry (hash::hashes)},decide (hash∉hashes))

/-- The envelopes of a packet in turn, and those that are posted. -/
def addAll:Node Priv→List Envelope→Option (Node Priv × List Envelope)
 | node,[]=>some (node,[])
 | node,e::es=>do
  let (added,fresh) ← add P node e
  let (last,posted) ← addAll added es
  return (last,if fresh then e::posted else posted)

/-- `expire`. Only sets that are there are visited and cleared. -/
def expire (now:BitVec 32) (node:Node Priv):Node Priv:=
 let stale:=node.expirations.entries.filter fun s=>s.1≤now
 {node with
  messages:=stale.foldl (fun ms s=>s.2.foldl (fun ms h=>ms.erase h) ms) node.messages
  expirations:=stale.foldl (fun xs s=>xs.insert s.1 []) node.expirations}

def envelopeType:GoType:=
 .struct (.cons "Expiry" (.uint .w32) (.cons "TTL" (.uint .w32)
  (.cons "Topics" (.slice (.byteArray 4)) (.cons "Data" .bytes
   (.cons "Nonce" (.uint .w32) .nil)))))

def raw:Step Bytes:=do
 let (k,size) ← kind
 if k=.byte then
  rearm
  return [(← get).byteval]
 else
  let content ← readFull size
  return (if k=.string then puthead 0x80 0xB8 size else puthead 0xC0 0xF7 size)++content

def decodeEnvelope (fuel:ℕ):Decoder Envelope:=do
 let raw ← lift raw
 match decodeBytes fuel envelopeType raw with
 | none=>stuck
 | some (.error e)=>Reading.throw e
 | some (.ok (expiry,ttl,topics,data,nonce,()))=>
  return ⟨expiry,ttl,topics,data,nonce,P.sha3 raw⟩

def decodeEnvelopes (fuel:ℕ) (packet:Bytes):Option (Except DecodeError (List Envelope)):=
 (decodeListSlice fuel (.slice envelopeType) (decodeEnvelope P fuel) (newStream packet)).map
  fun x=>x.1.mapError (nameTarget (.slice envelopeType))

/-- A packet is decoded, its envelopes are pooled and those that are new are posted; then the
pool is swept. A packet that cannot be decoded is passed over. -/
def receive (node:Node Priv) (fuel:ℕ) (packet:Bytes) (order:List Priv)
 (now:BitVec 32):Option (Node Priv):=
 match decodeEnvelopes P fuel packet with
 | some (.ok envelopes)=>(addAll P node envelopes).bind fun x=>
  (x.2.forM (postEvent P node.watchers order)).map fun _=>expire now x.1
 | _=>some node

def posted (node:Node Priv) (fuel:ℕ) (packet:Bytes):List Envelope:=
 match decodeEnvelopes P fuel packet with
 | some (.ok envelopes)=>((addAll P node envelopes).map Prod.snd).getD []
 | _=>[]

variable {P:Primitives Priv Pub Rand} {e:Envelope} {key:Priv} {c:Bytes}

variable (P) in
/-- A ciphertext that passes every check under the key, with less than the 16 bytes of an
initialisation vector between its point and its tag. -/
def Truncated (key:Priv) (c:Bytes):Prop:=
 (c.head? = some 2 ∨ c.head? = some 3 ∨ c.head? = some 4) ∧ 65+32+1≤c.length ∧
  c.length<65+32+16 ∧ ∃R,P.unmarshal (c.take 65)=some R ∧ P.isOnCurve R=true ∧
  ∃z,P.generateShared key R=some z ∧
   c.drop (c.length-32)=P.hmac (macKey P z) ((c.take (c.length-32)).drop 65)

lemma decryptFrom_eq_none_iff(hlen:65+32+1≤c.length):
 decryptFrom P key R c=none↔c.length<65+32+16∧P.isOnCurve R=true∧∃z,P.generateShared key R=some z∧
   c.drop (c.length-32)=P.hmac (macKey P z) ((c.take (c.length-32)).drop 65):=by
 have hct:((c.take (c.length-32)).drop 65).length=c.length-32-65:=by simp
 have hshort:c.length-32-65<16↔c.length<65+32+16:=by omega
 unfold decryptFrom
 cases P.isOnCurve R
 ·simp
 cases P.generateShared key R with
 | none=>simp
 | some z=>
  simp only[symDecrypt,hct,hshort]
  split_ifs with htag hlt<;>simp_all

lemma decrypt_eq_none_iff:decrypt P key c=none↔Truncated P key c:=by
 cases c with
 | nil=>simp[decrypt,Truncated]
 | cons b c=>
  simp only[decrypt,Truncated,head?_cons,Option.some.injEq]
  by_cases hb:b=2∨b=3∨b=4
  ·rw[if_pos hb]
   by_cases hlen:(b::c).length<65+32+1
   ·rw[if_pos hlen]
    exact iff_of_false (by simp) fun h=>by omega
   rw[if_neg hlen]
   cases P.unmarshal ((b::c).take 65) with
   | none=>simp
   | some R=>
    rw[decryptFrom_eq_none_iff (not_lt.1 hlen)]
    simp only[hb,not_lt.1 hlen,true_and,Option.some.injEq,exists_eq_left']
  simp[hb]

variable (P) in
/-- There is a byte of flags, and what it announces leaves no truncated ciphertext for a key. -/
def Openable (keys:List Priv) (e:Envelope):Prop:=
 ∃flags data,e.data=flags::data ∧ ∀signature payload,
  splitData flags data=some (signature,payload)→∀k∈keys,¬Truncated P k payload

lemma openable_iff{keys:List Priv}:Openable P keys e↔e.data≠[]∧∀k∈keys,e.open P (some k)≠none:=by
 cases hdata:e.data with
 | nil=>simp[Openable,hdata]
 | cons flags data=>
  cases hsplit:splitData flags data with
  | none=>simp[Openable,Envelope.open,hdata,hsplit]
  | some x=>
   obtain⟨signature,payload⟩:=x
   simp[Openable,Envelope.open,hdata,hsplit,decrypt_eq_none_iff]

lemma openWith_isSome:∀{order:List Priv},(∀k∈order,e.open P (some k)≠none) →
 (openWith P e order).isSome
 | [],_=>rfl
 | k::order,h=>by
  have hk:=h k mem_cons_self
  have ih:=openWith_isSome fun k' hk'=>h k' (mem_cons_of_mem k hk')
  unfold openWith
  cases hopen:e.open P (some k) with
  | none=>exact absurd hopen hk
  | some o=>cases o<;>simp[ih]

/-- The identity that panics may be the first one visited. -/
lemma forall_openAny_isSome_iff{keys:List Priv}:
 (∀order,order.Perm keys→(openAny P e order).isSome)↔Openable P keys e:=by
 rw[openable_iff]
 constructor
 ·intro h
  have hne:e.data≠[]:=fun hdata=>by
   have hnone (k:Option Priv):e.open P k=none:=by simp[Envelope.open,hdata]
   have:=h keys (.refl _)
   cases keys<;>simp[openAny,openWith,hnone]at this
  refine⟨hne,fun k hk hnone=>?_⟩
  obtain⟨front,back,rfl⟩:=append_of_mem hk
  simpa[openAny,openWith,hnone]using h (k::(front++back)) perm_middle.symm
 rintro⟨hne,h⟩ order hperm
 rw[openAny]
 split_ifs
 ·obtain⟨flags,data,hdata⟩:=exists_cons_of_ne_nil hne
  cases hsplit:splitData flags data<;>simp[Envelope.open,hdata,hsplit]
 exact openWith_isSome fun k hk=>h k (hperm.mem_iff.1 hk)

lemma allM_isSome{α:Type}{f:α→Option Bool}:∀{l:List α},(∀a∈l,(f a).isSome)→(l.allM f).isSome
 | [],_=>rfl
 | a::l,h=>by
  have ih:=allM_isSome fun b hb=>h b (mem_cons_of_mem a hb)
  obtain⟨b,hb⟩:=isSome_iff_exists.1 (h a mem_cons_self)
  cases b<;>simp[allM,hb,ih]

lemma forM_isSome_iff{α:Type}{f:α→Option Unit}:∀{l:List α},(forM l f).isSome↔∀a∈l,(f a).isSome
 | []=>by simp
 | a::l=>by
  have ih:=@forM_isSome_iff _ f l
  cases ha:f a<;>simp[ha,ih]

lemma topicsMatch_isSome(conditions:List (List Topic))(topics:List Topic):
 (topicsMatch conditions topics).isSome:=by
 unfold topicsMatch
 split_ifs
 ·rfl
 refine allM_isSome fun i hi=>?_
 rw[mem_range,lt_min_iff]at hi
 simp[hi]

lemma compare_isSome(w filter:Filterer):(w.compare filter).isSome:=by
 unfold Filterer.compare
 split_ifs
 ·rfl
 ·rfl
 exact topicsMatch_isSome _ _

lemma postEvent_isSome_iff:(postEvent P watchers order e).isSome↔(openAny P e order).isSome:=by
 unfold postEvent
 cases openAny P e order with
 | none=>simp
 | some m=>
  cases m with
  | none=>simp
  | some m=>simpa[forM_isSome_iff]using fun w _=>compare_isSome w _

lemma add_isSome(node:Node Priv)(e:Envelope):(add P node e).isSome:=by
 by_cases hin:e.hash P∈node.messages
 ·simp[add,hin]
 by_cases hexp:e.expiry∈node.expirations
 ·simpa[add,hin,hexp]using AList.lookup_isSome.2 hexp
 simp[add,hin,hexp]

lemma addAll_isSome:∀(node:Node Priv) (es:List Envelope),(addAll P node es).isSome
 | _,[]=>rfl
 | node,e::es=>by
  obtain⟨x,hx⟩:=isSome_iff_exists.1 (add_isSome (P:=P) node e)
  obtain⟨y,hy⟩:=isSome_iff_exists.1 (addAll_isSome x.1 es)
  simp[addAll,hx,hy]

lemma receive_isSome_iff:(receive P node fuel packet order now).isSome↔
  ∀e∈posted P node fuel packet,(openAny P e order).isSome:=by
 unfold receive posted
 cases decodeEnvelopes P fuel packet with
 | none=>simp
 | some r=>
  cases r with
  | error=>simp
  | ok es=>
   obtain⟨x,hx⟩:=isSome_iff_exists.1 (addAll_isSome (P:=P) node es)
   simp[hx,forM_isSome_iff,postEvent_isSome_iff]

/-- A packet crashes a node in no order of its identities exactly when every envelope of it that
is posted can be opened. -/
theorem receive_never_panics_iff (P : Primitives Priv Pub Rand) (node : Node Priv) (fuel : ℕ)
    (packet : Bytes) (now : BitVec 32) :
    (∀ order, order.Perm node.keys → (receive P node fuel packet order now).isSome) ↔
      ∀ e ∈ posted P node fuel packet, Openable P node.keys e := by
 simp only[receive_isSome_iff,←forall_openAny_isSome_iff]
 exact⟨fun h e he order ho=>h order ho e he,fun h order ho e he=>h e he order ho⟩

/-- Two key pairs. A tag names the shared secret and a signature its key. -/
def twoKeys:Primitives Bool Bool Unit where
 publicKey:=id
 marshal k:=4::(replicate 63 0++[k.toUInt8])
 unmarshal b:=if b.head? = some 4 then some (b.getLast? == some 1) else none
 isOnCurve _:=true
 generateKey _:=false
 generateShared k R:=some [(k ^^ R).toUInt8]
 sha256 x:=replicate 31 0++[x.getLastD 0]
 hmac k _:=replicate 31 0++[k.getLastD 0]
 generateIV _:=replicate 16 0
 xorKeyStream _ _ m:=m
 sha3 _:=1
 sign _ _ k:=some (replicate 64 0++[k.toUInt8])
 recoverPubkey _ sig:=some (4::(replicate 63 0++[sig.getLastD 0]))

def packetOf (data:Bytes):Bytes:=encode (.list [Envelope.item ⟨0,0,[],data,0,0⟩])

/-- No data at all, and one byte of ciphertext under a good tag. -/
theorem receive_panics :
    (receive twoKeys ⟨[], ∅, ∅, []⟩ 9 (packetOf []) [] 0).isSome = false ∧
    (receive twoKeys ⟨[true], ∅, ∅, []⟩ 9
      (packetOf (0 :: (twoKeys.marshal true ++ (7 :: twoKeys.hmac [0] [])))) [true] 0).isSome =
        false := by
 decide +kernel

end GoCoupe.WhisperEnvelopes
