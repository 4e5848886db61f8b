import GoCoupe.CommonTypes

/-!
# The encryption handshake

`initiatorEncHandshake` and `receiverEncHandshake` of `p2p/rlpx.go` over abstract primitives.
Randomness is drawn beforehand, and a running hash is the string of bytes written to it.
-/

namespace GoCoupe.RlpxHandshake
open List

def sskLen:ℕ:=16
def sigLen:ℕ:=65
def pubLen:ℕ:=64
def shaLen:ℕ:=32
def authMsgLen:ℕ:=sigLen+shaLen+pubLen+shaLen+1
def authRespLen:ℕ:=pubLen+shaLen+1
def eciesBytes:ℕ:=65+16+32
def encAuthMsgLen:ℕ:=authMsgLen+eciesBytes
def encAuthRespLen:ℕ:=authRespLen+eciesBytes

abbrev Nonce:={n:Bytes // n.length=shaLen}

inductive HandshakeError where
 | badRemoteID
 | sharedKey
 | signature
 | encryption
 | decryption
 | recovery
 | checksum
 | keyLength
 | shortRead
 deriving DecidableEq,Repr

/-- The primitives. A signature and an encryption take their randomness as an argument. -/
structure Primitives (Priv Pub Rand:Type) where
 publicKey:Priv→Pub
  /-- The two coordinates, 32 bytes each. -/
 marshal:Pub→Bytes
  /-- `elliptic.Unmarshal` of a key with its format byte. -/
 unmarshal:Bytes→Option Pub
  /-- `NodeID.Pubkey`. -/
 pubkey:Bytes→Option Pub
 generateShared:Priv→Pub→ℕ→Option Bytes
 sign:Rand→Bytes→Priv→Option Bytes
 recoverPubkey:Bytes→Bytes→Option Bytes
 encrypt:Rand→Pub→Bytes→Option Bytes
 decrypt:Priv→Bytes→Option Bytes
 sha3:Bytes→Bytes

/-- `xor`; both strings have the length of a hash. -/
def xor (one other:Bytes):Bytes:=one.zipWith (· ^^^ ·) other

/-- Pieces that are copied one behind the other into a buffer of zeros. -/
def fill (size:ℕ) (pieces:List Bytes):Bytes:=(pieces.flatten++replicate size 0).take size

def slice (b:Bytes) (lo hi:ℕ):Bytes:=(b.take hi).drop lo

def readFull (conn:Bytes) (n:ℕ):Except HandshakeError Bytes:=
 if conn.length<n then .error .shortRead else .ok (conn.take n)

def orElse {α:Type} (e:HandshakeError):Option α→Except HandshakeError α
 | some a=>.ok a
 | none=>.error e

section Model

variable {Priv Pub Rand:Type} (P:Primitives Priv Pub Rand)

structure EncHandshake (Priv Pub:Type) where
 initiator:Bool
 remoteID:Bytes
 remotePub:Pub
 initNonce:Bytes
 respNonce:Bytes
 randomPrivKey:Priv
 remoteRandomPub:Option Pub

structure Secrets where
 remoteID:Bytes
 aes:Bytes
 mac:Bytes
 egressMAC:Bytes
 ingressMAC:Bytes
 token:Bytes
 deriving DecidableEq,Repr

def secrets (h:EncHandshake Priv Pub) (auth authResp:Bytes):Except HandshakeError Secrets:=do
 let remoteRandomPub ← orElse .sharedKey h.remoteRandomPub
 let ecdheSecret ← orElse .sharedKey
  (P.generateShared h.randomPrivKey remoteRandomPub (sskLen+sskLen))
 let sharedSecret:=P.sha3 (ecdheSecret++P.sha3 (h.respNonce++h.initNonce))
 let aesSecret:=P.sha3 (ecdheSecret++sharedSecret)
 let macSecret:=P.sha3 (ecdheSecret++aesSecret)
 let mac1:=xor macSecret h.respNonce++auth
 let mac2:=xor macSecret h.initNonce++authResp
 return {
  remoteID:=h.remoteID
  aes:=aesSecret
  mac:=macSecret
  token:=P.sha3 sharedSecret
  egressMAC:=if h.initiator then mac1 else mac2
  ingressMAC:=if h.initiator then mac2 else mac1}

def ecdhShared (h:EncHandshake Priv Pub) (prv:Priv):Except HandshakeError Bytes:=
 orElse .sharedKey (P.generateShared prv h.remotePub (sskLen+sskLen))

/-- The token of an earlier session, or the shared secret of the static keys. -/
def sessionToken (h:EncHandshake Priv Pub) (prv:Priv):Option Bytes→Except HandshakeError Bytes
 | some token=>.ok token
 | none=>ecdhShared P h prv

structure Draws (Priv Rand:Type) where
 nonce:Nonce
 randomPrivKey:Priv
 signing:Rand
 encryption:Rand

def newInitiatorHandshake (d:Draws Priv Rand) (remoteID:Bytes):
 Except HandshakeError (EncHandshake Priv Pub):=do
 let rpub ← orElse .badRemoteID (P.pubkey remoteID)
 return ⟨true,remoteID,rpub,d.nonce,[],d.randomPrivKey,none⟩

def authMsg (d:Draws Priv Rand) (h:EncHandshake Priv Pub) (prv:Priv) (token:Option Bytes):
 Except HandshakeError Bytes:=do
 let secret ← sessionToken P h prv token
 let tokenFlag:UInt8:=if token.isNone then 0x00 else 0x01
 let signed:=xor secret h.initNonce
 let signature ← orElse .signature (P.sign d.signing signed h.randomPrivKey)
 let msg:=fill authMsgLen [signature,P.sha3 (P.marshal (P.publicKey h.randomPrivKey)),
  P.marshal (P.publicKey prv),h.initNonce,[tokenFlag]]
 orElse .encryption (P.encrypt d.encryption h.remotePub msg)

/-- Keys of 64 bytes lack the format byte. -/
def importPublicKey (pubKey:Bytes):Except HandshakeError (Option Pub):=
 if pubKey.length=64 then .ok (P.unmarshal (0x04::pubKey))
 else if pubKey.length=65 then .ok (P.unmarshal pubKey)
 else .error .keyLength

def decodeAuthResp (h:EncHandshake Priv Pub) (auth:Bytes) (prv:Priv):
 Except HandshakeError (EncHandshake Priv Pub):=do
 let msg ← orElse .decryption (P.decrypt prv auth)
 let remoteRandomPub ← importPublicKey P (msg.take pubLen)
 return {h with
  respNonce:=slice msg pubLen (pubLen+shaLen)
  remoteRandomPub:=remoteRandomPub}

/-- The ephemeral key of the initiator is recovered from its signature. -/
def recoverRandomPub (secret:Bytes) (initNonce msg:Bytes):Except HandshakeError (Option Pub):=do
 let remoteRandomPub ← orElse .recovery
  (P.recoverPubkey (xor secret initNonce) (msg.take sigLen))
 if slice msg sigLen (sigLen+shaLen)≠P.sha3 (remoteRandomPub.drop 1) then
  throw .checksum
 match importPublicKey P remoteRandomPub with
 | .ok pub=>return pub
 | .error _=>return none

def decodeAuthMsg (d:Draws Priv Rand) (prv:Priv) (token:Option Bytes) (auth:Bytes):
 Except HandshakeError (EncHandshake Priv Pub):=do
 let msg ← orElse .decryption (P.decrypt prv auth)
 let initNonce:=slice msg (authMsgLen-shaLen-1) (authMsgLen-1)
 let remoteID:=slice msg (sigLen+shaLen) (sigLen+shaLen+pubLen)
 let rpub ← orElse .badRemoteID (P.pubkey remoteID)
 let h:EncHandshake Priv Pub:=⟨false,remoteID,rpub,initNonce,d.nonce,d.randomPrivKey,none⟩
 let secret ← sessionToken P h prv token
 let remoteRandomPub ← recoverRandomPub P secret initNonce msg
 return {h with remoteRandomPub:=remoteRandomPub}

def authResp (d:Draws Priv Rand) (h:EncHandshake Priv Pub) (token:Option Bytes):
 Except HandshakeError Bytes:=
 let resp:=fill authRespLen [P.marshal (P.publicKey h.randomPrivKey),h.respNonce,
  [if token.isNone then 0 else 1]]
 orElse .encryption (P.encrypt d.encryption h.remotePub resp)

/-- The initiator up to its first message. -/
def initiatorSend (d:Draws Priv Rand) (prv:Priv) (remoteID:Bytes) (token:Option Bytes):
 Except HandshakeError (EncHandshake Priv Pub × Bytes):=do
 let h ← newInitiatorHandshake P d remoteID
 let auth ← authMsg P d h prv token
 return (h,auth)

/-- The initiator from the response on. -/
def initiatorReceive (h:EncHandshake Priv Pub) (prv:Priv) (auth conn:Bytes):
 Except HandshakeError Secrets:=do
 let response ← readFull conn encAuthRespLen
 let h ← decodeAuthResp P h response prv
 secrets P h auth response

/-- The receiver: its response and its secrets. -/
def receiverEncHandshake (d:Draws Priv Rand) (prv:Priv) (token:Option Bytes)
 (conn:Bytes):Except HandshakeError (Bytes × Secrets):=do
 let auth ← readFull conn encAuthMsgLen
 let h ← decodeAuthMsg P d prv token auth
 let resp ← authResp P d h token
 let s ← secrets P h auth resp
 return (resp,s)

/-- The two handshakes over a connection that delivers what is written to it. -/
def exchange (di dr:Draws Priv Rand) (initiator receiver:Priv) (remoteID:Bytes)
 (initiatorToken receiverToken:Option Bytes):
 Except HandshakeError (Secrets × Secrets):=do
 let (h,auth) ← initiatorSend P di initiator remoteID initiatorToken
 let (resp,theirs) ← receiverEncHandshake P dr receiver receiverToken auth
 let ours ← initiatorReceive P h initiator auth resp
 return (ours,theirs)

end Model

section Laws

variable {Priv Pub Rand:Type}

structure Lawful (P:Primitives Priv Pub Rand):Prop where
 marshal_length:∀k,(P.marshal (P.publicKey k)).length=pubLen
 unmarshal_marshal:∀k,P.unmarshal (0x04::P.marshal (P.publicKey k))=some (P.publicKey k)
 pubkey_marshal:∀k,P.pubkey (P.marshal (P.publicKey k))=some (P.publicKey k)
 shared:∀a b n,n≤32→∃s,P.generateShared a (P.publicKey b) n=some s ∧ s.length=n
 shared_comm:∀a b n,P.generateShared a (P.publicKey b) n=P.generateShared b (P.publicKey a) n
 sign:∀r k msg,msg.length=32→∃sig,P.sign r msg k=some sig ∧ sig.length=sigLen ∧
  P.recoverPubkey msg sig=some (0x04::P.marshal (P.publicKey k))
 encrypt:∀r k msg,∃c,P.encrypt r (P.publicKey k) msg=some c ∧
  c.length=msg.length+eciesBytes ∧ P.decrypt k c=some msg
 sha3_length:∀x,(P.sha3 x).length=shaLen

variable {P:Primitives Priv Pub Rand}

lemma fill_of_length(h:pieces.flatten.length=size):fill size pieces=pieces.flatten:=by
 rw[fill,←h,take_left']
 rfl

lemma slice_append(ha:a.length=lo)(hb:lo+b.length=hi):slice (a++(b++c)) lo hi=b:=by
 rw[slice,←append_assoc,take_left' (by rw[length_append,ha,hb]),drop_left' ha]

lemma xor_length(ha:a.length=shaLen)(hb:b.length=shaLen):(xor a b).length=shaLen:=by
 rw[xor,length_zipWith,ha,hb,Nat.min_self]

lemma readFull_of_length(h:conn.length=n):readFull conn n=.ok conn:=by
 rw[readFull,if_neg (by omega),←h,take_length]

def authPlain (P:Primitives Priv Pub Rand) (d:Draws Priv Rand) (prv:Priv) (sig:Bytes):Bytes:=
 sig++(P.sha3 (P.marshal (P.publicKey d.randomPrivKey)) ++
  (P.marshal (P.publicKey prv)++(d.nonce.1++[0x00])))

section

variable (hP:Lawful P) (d:Draws Priv Rand)

include hP d

lemma authPlain_length(prv:Priv)
 (hsig:sig.length=sigLen):(authPlain P d prv sig).length=authMsgLen:=by
 simp only[authPlain,length_append,hsig,hP.sha3_length,hP.marshal_length,d.nonce.2]
 rfl

lemma fill_authPlain(prv:Priv)(hsig:sig.length=sigLen):
 fill authMsgLen [sig,P.sha3 (P.marshal (P.publicKey d.randomPrivKey)),
  P.marshal (P.publicKey prv),d.nonce.1,[0x00]]=authPlain P d prv sig:=by
 have hflat:[sig,P.sha3 (P.marshal (P.publicKey d.randomPrivKey)),
  P.marshal (P.publicKey prv),d.nonce.1,[0x00]].flatten=authPlain P d prv sig:=by
  simp[authPlain]
 rw[fill_of_length (by rw[hflat,authPlain_length hP d prv hsig]),hflat]

/-- The initiator's message: what the receiver decrypts, and what the signature reveals. -/
lemma initiatorSend_eq(initiator receiver:Priv):
 ∃shared sig auth,P.generateShared initiator (P.publicKey receiver) (sskLen+sskLen)=some shared∧
  initiatorSend P d initiator (P.marshal (P.publicKey receiver)) none =
   .ok (⟨true,P.marshal (P.publicKey receiver),P.publicKey receiver,d.nonce,[],
    d.randomPrivKey,none⟩,auth)∧
  auth.length=encAuthMsgLen∧sig.length=sigLen∧
  P.recoverPubkey (xor shared d.nonce) sig = some (0x04::P.marshal (P.publicKey d.randomPrivKey))∧
  P.decrypt receiver auth=some (authPlain P d initiator sig):=by
 obtain⟨shared,hshared,hlen⟩:=hP.shared initiator receiver (sskLen+sskLen) (by decide)
 obtain⟨sig,hsig,hsiglen,hrecover⟩:=hP.sign d.signing d.randomPrivKey
  (xor shared d.nonce) (xor_length hlen d.nonce.2)
 obtain⟨auth,hauth,hauthlen,hdec⟩:=hP.encrypt d.encryption receiver
  (authPlain P d initiator sig)
 refine⟨shared,sig,auth,hshared,?_,?_,hsiglen,hrecover,hdec⟩
 ·simp only[initiatorSend,newInitiatorHandshake,hP.pubkey_marshal,orElse,bind,Except.bind,
   pure,Except.pure,authMsg,sessionToken,ecdhShared,hshared,hsig,Option.isNone_none,
   if_true,fill_authPlain hP d initiator hsiglen,hauth]
 rw[hauthlen,authPlain_length hP d initiator hsiglen]
 rfl

def respPlain (P:Primitives Priv Pub Rand) (d:Draws Priv Rand):Bytes:=
 P.marshal (P.publicKey d.randomPrivKey)++(d.nonce.1++[0x00])

lemma respPlain_length:(respPlain P d).length=authRespLen:=by
 simp only[respPlain,length_append,hP.marshal_length,d.nonce.2]
 rfl

lemma authResp_eq{h:EncHandshake Priv Pub}
 {initiator:Priv}(hremote:h.remotePub=P.publicKey initiator)
 (hnonce:h.respNonce=d.nonce)(hrandom:h.randomPrivKey=d.randomPrivKey):
 ∃resp,authResp P d h none=.ok resp∧resp.length=encAuthRespLen∧
  P.decrypt initiator resp=some (respPlain P d):=by
 obtain⟨resp,hresp,hlen,hdec⟩:=hP.encrypt d.encryption initiator (respPlain P d)
 have hflat:[P.marshal (P.publicKey d.randomPrivKey),d.nonce.1,[0x00]].flatten=respPlain P d:=by
  simp[respPlain]
 have hfill:fill authRespLen [P.marshal (P.publicKey d.randomPrivKey),d.nonce.1,[0x00]] =
  respPlain P d:=by
  rw[fill_of_length (by rw[hflat,respPlain_length hP d]),hflat]
 refine⟨resp,?_,?_,hdec⟩
 ·simp only[authResp,hremote,hnonce,hrandom,Option.isNone_none,if_true,hfill,hresp,orElse]
 rw[hlen,respPlain_length hP d]
 rfl

lemma decodeAuthResp_eq(h:EncHandshake Priv Pub)
 (hdec:P.decrypt initiator resp=some (respPlain P d)):
 decodeAuthResp P h resp initiator=.ok {h with
  respNonce:=d.nonce,remoteRandomPub:=some (P.publicKey d.randomPrivKey)}:=by
 have hpub:=hP.marshal_length d.randomPrivKey
 have htake:(respPlain P d).take pubLen=P.marshal (P.publicKey d.randomPrivKey):=take_left' hpub
 have hnonce:slice (respPlain P d) pubLen (pubLen+shaLen)=d.nonce.1:=slice_append hpub (by rw[d.nonce.2])
 have hkey:importPublicKey P (P.marshal (P.publicKey d.randomPrivKey)) =
  .ok (some (P.publicKey d.randomPrivKey)):=by
  rw[importPublicKey,hpub,if_pos (by decide),hP.unmarshal_marshal]
 simp only[decodeAuthResp,hdec,orElse,bind,Except.bind,htake,hkey,hnonce,pure,Except.pure]

end

lemma decodeAuthMsg_eq(hP:Lawful P)(di dr:Draws Priv Rand)

 (hshared:P.generateShared initiator (P.publicKey receiver) (sskLen+sskLen)=some shared)
 (hsig:sig.length=sigLen)
 (hrecover:P.recoverPubkey (xor shared di.nonce) sig =
  some (0x04::P.marshal (P.publicKey di.randomPrivKey)))
 (hdec:P.decrypt receiver auth=some (authPlain P di initiator sig)) :
 decodeAuthMsg P dr receiver none auth=.ok ⟨false,P.marshal (P.publicKey initiator),
  P.publicKey initiator,di.nonce,dr.nonce,dr.randomPrivKey,
  some (P.publicKey di.randomPrivKey)⟩:=by
 have hsha:=hP.sha3_length (P.marshal (P.publicKey di.randomPrivKey))
 have hpub:=hP.marshal_length initiator
 have hnonce:slice (authPlain P di initiator sig) (authMsgLen-shaLen-1) (authMsgLen-1) =
  di.nonce.1:=by
  rw[authPlain,←append_assoc,←append_assoc]
  refine slice_append ?_ ?_
  · rw[length_append,length_append,hsig,hsha,hpub]
    rfl
  rw[di.nonce.2]
  rfl
 have hid:slice (authPlain P di initiator sig) (sigLen+shaLen) (sigLen+shaLen+pubLen) =
  P.marshal (P.publicKey initiator):=by
  rw[authPlain,←append_assoc]
  refine slice_append ?_ ?_
  · rw[length_append,hsig,hsha]
  rw[hpub]
 have hsum:slice (authPlain P di initiator sig) sigLen (sigLen+shaLen) =
  P.sha3 (P.marshal (P.publicKey di.randomPrivKey)):=slice_append hsig (by rw[hsha])
 have htake:(authPlain P di initiator sig).take sigLen=sig:=take_left' hsig
 have hkey:importPublicKey P (0x04::P.marshal (P.publicKey di.randomPrivKey)) =
  .ok (some (P.publicKey di.randomPrivKey)):=by
  rw[importPublicKey,length_cons,hP.marshal_length,if_neg (by decide),
   if_pos (by decide),hP.unmarshal_marshal]
 have hrandom:recoverRandomPub P shared di.nonce (authPlain P di initiator sig) =
  .ok (some (P.publicKey di.randomPrivKey)):=by
  simp only[recoverRandomPub,htake,hrecover,orElse,bind,Except.bind,hsum,drop_succ_cons,
   drop_zero,ne_eq,not_true_eq_false,if_false,hkey,pure,Except.pure]
 simp only[decodeAuthMsg,hdec,orElse,bind,Except.bind,hnonce,hid,hP.pubkey_marshal,
  sessionToken,ecdhShared,hP.shared_comm receiver initiator,hshared,hrandom,pure,Except.pure]

structure Mirrored (ours theirs:Secrets):Prop where
 aes:ours.aes=theirs.aes
 mac:ours.mac=theirs.mac
 token:ours.token=theirs.token
 forth:ours.egressMAC=theirs.ingressMAC
 back:ours.ingressMAC=theirs.egressMAC

/-- Both sides derive the secrets from the same values. -/
lemma secrets_mirrored(hP:Lawful P){h h':EncHandshake Priv Pub}{a b:Priv}
 (hside:h.initiator=true)(hside':h'.initiator=false)(hinit:h.initNonce=h'.initNonce)
 (hresp:h.respNonce=h'.respNonce)(ha:h.randomPrivKey=a)(hb:h'.randomPrivKey=b)
 (hremote:h.remoteRandomPub=some (P.publicKey b))
 (hremote':h'.remoteRandomPub=some (P.publicKey a))(auth resp:Bytes):
 ∃ours theirs,secrets P h auth resp=.ok ours∧secrets P h' auth resp=.ok theirs∧
  ours.remoteID=h.remoteID∧theirs.remoteID=h'.remoteID∧Mirrored ours theirs:=by
 obtain⟨ecdhe,hecdhe,-⟩:=hP.shared a b (sskLen+sskLen) (by decide)
 have hecdhe':=hecdhe
 rw[hP.shared_comm]at hecdhe'
 simp only[secrets,hremote,hremote',ha,hb,orElse,bind,Except.bind,hecdhe,hecdhe',hinit,
  hresp,hside,hside',pure,Except.pure]
 exact⟨_,_,rfl,rfl,rfl,rfl,⟨rfl,rfl,rfl,rfl,rfl⟩⟩

/-- Over a connection that delivers the messages unaltered both handshakes succeed, each side
learns the identity of the other, and the secrets are those of the two ends of one connection. -/
theorem handshake_agrees (hP : Lawful P) (di dr : Draws Priv Rand) (initiator receiver : Priv) :
    ∃ ours theirs,
      exchange P di dr initiator receiver (P.marshal (P.publicKey receiver)) none none =
        .ok (ours, theirs) ∧
      theirs.remoteID = P.marshal (P.publicKey initiator) ∧
      ours.remoteID = P.marshal (P.publicKey receiver) ∧ Mirrored ours theirs := by
 obtain⟨shared,sig,auth,hshared,hsend,hauthlen,hsig,hrecover,hdec⟩:=
  initiatorSend_eq hP di initiator receiver
 have hdecode:=decodeAuthMsg_eq hP di dr hshared hsig hrecover hdec
 obtain⟨resp,hresp,hresplen,hdec'⟩:=@authResp_eq Priv Pub Rand P hP dr
  ⟨false,P.marshal (P.publicKey initiator),P.publicKey initiator,di.nonce,dr.nonce,
   dr.randomPrivKey,some (P.publicKey di.randomPrivKey)⟩ initiator rfl rfl rfl
 have hdecode':=decodeAuthResp_eq hP dr ⟨true,P.marshal (P.publicKey receiver),
  P.publicKey receiver,di.nonce,[],di.randomPrivKey,none⟩ hdec'
 obtain⟨ours,theirs,hours,htheirs,hid,hid',hmirrored⟩:=@secrets_mirrored Priv Pub Rand P hP
  ⟨true,P.marshal (P.publicKey receiver),P.publicKey receiver,di.nonce,dr.nonce,
   di.randomPrivKey,some (P.publicKey dr.randomPrivKey)⟩
  ⟨false,P.marshal (P.publicKey initiator),P.publicKey initiator,di.nonce,dr.nonce,
   dr.randomPrivKey,some (P.publicKey di.randomPrivKey)⟩
  di.randomPrivKey dr.randomPrivKey rfl rfl rfl rfl rfl rfl rfl rfl auth resp
 refine⟨ours,theirs,?_,hid',hid,hmirrored⟩
 simp only[exchange,hsend,bind,Except.bind,receiverEncHandshake,readFull_of_length hauthlen,
  hdecode,hresp,htheirs,pure,Except.pure,initiatorReceive,readFull_of_length hresplen,
  hdecode',hours]

end Laws

def sampleMarshal (p:UInt8):Bytes:=replicate 63 0++[p]

/-- A byte for a key, the exclusive or for the shared secret, and encryption by a blank header. -/
def samplePrimitives:Primitives UInt8 UInt8 Unit where
 publicKey k:=k
 marshal:=sampleMarshal
 unmarshal b:=b.getLast?
 pubkey b:=b.getLast?
 generateShared a b n:=some (replicate n (a ^^^ b))
 sign _ _ k:=some (replicate 64 0++[k])
 recoverPubkey _ sig:=sig.getLast?.map (0x04::sampleMarshal ·)
 encrypt _ _ msg:=some (replicate eciesBytes 0++msg)
 decrypt _ c:=some (c.drop eciesBytes)
 sha3 _:=replicate shaLen 0

lemma lawful_samplePrimitives:Lawful samplePrimitives where
 marshal_length k:=by simp[samplePrimitives,sampleMarshal,pubLen]
 unmarshal_marshal k:=by simp[samplePrimitives,sampleMarshal,getLast?_cons]
 pubkey_marshal k:=by simp[samplePrimitives,sampleMarshal]
 shared a b n _:=⟨_,rfl,length_replicate⟩
 shared_comm a b n:=by simp[samplePrimitives,UInt8.xor_comm]
 sign _ k msg _:=⟨_,rfl,by simp[sigLen],by simp[samplePrimitives]⟩
 encrypt _ k msg:=⟨_,rfl,by simp[Nat.add_comm],by simp[samplePrimitives]⟩
 sha3_length _:=length_replicate

def sampleDraws (k:UInt8):Draws UInt8 Unit:=⟨⟨replicate 32 k,rfl⟩,k,(),()⟩

theorem handshake_agrees_sample : ∃ ours theirs,
    exchange samplePrimitives (sampleDraws 3) (sampleDraws 4) 1 2 (sampleMarshal 2) none none =
      .ok (ours, theirs) ∧
    theirs.remoteID = sampleMarshal 1 ∧ ours.remoteID = sampleMarshal 2 ∧ Mirrored ours theirs :=
 handshake_agrees lawful_samplePrimitives (sampleDraws 3) (sampleDraws 4) 1 2

end GoCoupe.RlpxHandshake
