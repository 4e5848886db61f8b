import GoCoupe.WhisperEnvelopes

/-!
# Delivery of whisper messages

`Message.Wrap`, and what `Whisper.open` makes of its envelope. Whether a payload is encrypted
is told from its first bytes only, so that a clear payload which looks like a ciphertext is
lost on nodes with identities.
-/

namespace GoCoupe.WhisperDelivery

open WhisperEnvelopes List Option

variable {Priv Pub Rand:Type}

variable (P:Primitives Priv Pub Rand)

/-- `NewMessage`, with the byte that is drawn for the flags. -/
def newMessage (flags:UInt8) (payload:Bytes) (now:BitVec 32):Message Pub:=
 ⟨flags &&& ~~~signatureFlag,none,payload,now,0,none,0⟩

def Message.sign (m:Message Pub) (rand:Rand) (key:Priv):Option (Message Pub):=
 let m:={m with flags:=m.flags ||| signatureFlag}
 (P.sign rand (m.checksum P) key).map fun sig=>{m with signature:=some sig}

def Message.encrypt (m:Message Pub) (rand:Rand) (pub:Pub):Option (Message Pub):=
 (WhisperEnvelopes.encrypt P rand pub m.payload).toOption.map fun c=>{m with payload:=c}

def Message.bytes (m:Message Pub):Bytes:=m.flags::(m.signature.getD []++m.payload)

structure Options (Priv Pub:Type) where
 sender:Option Priv
 recipient:Option Pub
  /-- In nanoseconds, zero for the default. -/
 ttl:ℕ
 topics:List Topic

def defaultTTL:ℕ:=50*10^9

/-- `Wrap` at a time in nanoseconds, with the nonce that `Seal` finds; `none` is an error. -/
def wrap (o:Options Priv Pub) (signing encryption:Rand) (now:ℕ) (nonce:BitVec 32)
 (m:Message Pub):Option Envelope:=
 let ttl:=if o.ttl=0 then defaultTTL else o.ttl
 (o.sender.elim (some m) (Message.sign P m signing)).bind fun m=>
  (o.recipient.elim (some m) (Message.encrypt P m encryption)).map fun m=>
   ⟨.ofNat 32 ((now+ttl)/10^9),.ofNat 32 (ttl/10^9),o.topics,Message.bytes m,nonce,0⟩

structure Lawful (P:Primitives Priv Pub Rand):Prop where
 marshal_length:∀k,(P.marshal (P.publicKey k)).length=65
 marshal_format:∀k,(P.marshal (P.publicKey k)).head? = some 4
 unmarshal_marshal:∀k,P.unmarshal (P.marshal (P.publicKey k))=some (P.publicKey k)
 isOnCurve:∀k,P.isOnCurve (P.publicKey k)=true
 shared:∀a b,∃z,P.generateShared a (P.publicKey b)=some z ∧ P.generateShared b (P.publicKey a)=some z
 generateIV_length:∀r,(P.generateIV r).length=16
 xorKeyStream_length:∀key iv m,(P.xorKeyStream key iv m).length=m.length
 xorKeyStream_twice:∀key iv m,P.xorKeyStream key iv (P.xorKeyStream key iv m)=m
 hmac_length:∀key m,(P.hmac key m).length=32
 hmac_ne:∀a b R z z' m,P.generateShared a R=some z→P.generateShared b R=some z' →
  z≠z'→P.hmac (macKey P z) m≠P.hmac (macKey P z') m
 sign:∀r h k,h.length=32→∃sig,P.sign r h k=some sig ∧ sig.length=65 ∧
  P.recoverPubkey h sig=some (P.marshal (P.publicKey k))

variable {P:Primitives Priv Pub Rand} {e:Envelope} {payload:Bytes} {sender:Option Priv}

variable (P) in
/-- A text that is told from a ciphertext: its first byte is no format of a point, or it is long
enough for a ciphertext and does not begin with a point. -/
def Clear (c:Bytes):Prop:=
 ∃b,c.head? = some b ∧ (b=2 ∨ b=3 ∨ b=4 → 65+32+1≤c.length ∧ P.unmarshal (c.take 65)=none)

lemma decryptFrom_ne_invalidPublicKey(key:Priv)(R:Pub)(c:Bytes):
 decryptFrom P key R c≠some (.error .invalidPublicKey):=by
 unfold decryptFrom
 split_ifs
 ·simp
 cases P.generateShared key R with
 | none=>simp
 | some z=>
  dsimp only
  split_ifs<;>simp

lemma decrypt_invalidPublicKey_iff:decrypt P key c=some (.error .invalidPublicKey)↔Clear P c:=by
 cases c with
 | nil=>simp[decrypt,Clear]
 | cons b c=>
  simp only[decrypt,Clear,head?_cons,some.injEq,exists_eq_left']
  split_ifs with hb hlen
  ·exact iff_of_false (by simp) fun h=>absurd (h hb).1 (not_le.2 hlen)
  ·cases hR:P.unmarshal ((b::c).take 65) with
   | none=>simpa using fun _=>by simpa using hlen
   | some R=>simp[hb,decryptFrom_ne_invalidPublicKey]
  simp[hb]

lemma decryptFrom_length_lt(hP:Lawful P)
 (hc:c≠[])(h:decryptFrom P key R c=some (.ok m)):m.length<c.length:=by
 unfold decryptFrom at h
 split_ifs at h
 ·simp at h
 cases hz:P.generateShared key R with
 | none=>simp[hz]at h
 | some z=>
  simp only[hz,symDecrypt]at h
  split_ifs at h
  ·simp at h
  ·obtain rfl:P.xorKeyStream _ _ _=m:=by simpa using h
   have:=length_pos_of_ne_nil hc
   simp only[hP.xorKeyStream_length,length_drop,length_take]
   omega
  simp at h

lemma decrypt_length_lt(hP:Lawful P)(h:decrypt P key c=some (.ok m)):m.length<c.length:=by
 unfold decrypt at h
 split at h
 ·simp at h
 split_ifs at h
 ·simp at h
 ·split at h
  ·simp at h
  exact decryptFrom_length_lt hP (by simp) h
 simp at h

/-- A ciphertext is taken apart where it was put together. -/
lemma decrypt_parts(hP:Lawful P){key r:Priv}{z em tag:Bytes}(hem:em≠[])
 (htag:tag.length=32)(hz:P.generateShared key (P.publicKey r)=some z):
 decrypt P key (P.marshal (P.publicKey r)++(em++tag)) =
  if tag=P.hmac (macKey P z) em then (symDecrypt P (cipherKey P z) em).map .ok
  else some (.error .invalidMessage):=by
 have hR:=hP.marshal_length r
 have hpos:=length_pos_of_ne_nil hem
 have htake:(P.marshal (P.publicKey r)++(em++tag)).take 65=P.marshal (P.publicKey r):=by
  rw[←hR,take_left]
 have hfrom:decryptFrom P key (P.publicKey r) (P.marshal (P.publicKey r)++(em++tag)) =
  if tag=P.hmac (macKey P z) em then (symDecrypt P (cipherKey P z) em).map .ok
  else some (.error .invalidMessage):=by
  have hlen:(P.marshal (P.publicKey r)++(em++tag)).length-32 =
   (P.marshal (P.publicKey r)++em).length:=by
   simp only[length_append]
   omega
  rw[decryptFrom,hP.isOnCurve,hz,hlen,←append_assoc,drop_left,take_left,←hR,drop_left]
  rfl
 obtain⟨rest,hrest⟩:=head?_eq_some_iff.1 (hP.marshal_format r)
 rw[←hfrom]
 generalize hc:P.marshal (P.publicKey r)++(em++tag)=c at htake
 have hlen:¬c.length<65+32+1:=by
  rw[←hc,length_append,length_append]
  omega
 rw[hrest,cons_append]at hc
 subst hc
 rw[decrypt,if_pos (by decide),if_neg hlen,htake,hP.unmarshal_marshal]

/-- A ciphertext gives its text under the key of the recipient, and under another key the same
or an error that lets the next key be tried. -/
lemma decrypt_encrypt(hP:Lawful P)(rand:Rand)(k:Priv)(hne:payload≠[]):
 ∃c,encrypt P rand (P.publicKey k) payload=.ok c∧decrypt P k c=some (.ok payload)∧
  ∀key,decrypt P key c=some (.ok payload)∨decrypt P key c=some (.error .invalidMessage):=by
 obtain⟨z,hz,hz'⟩:=hP.shared (P.generateKey rand) k
 obtain⟨em,hem⟩:∃em,symEncrypt P rand (cipherKey P z) payload=em:=⟨_,rfl⟩
 have hiv:=hP.generateIV_length rand
 have hlen:em.length=16+payload.length:=by
  rw[←hem,symEncrypt,length_append,hiv,hP.xorKeyStream_length]
 have hpos:=length_pos_of_ne_nil hne
 have hne':em≠[]:=ne_nil_of_length_pos (by omega)
 have hplain:symDecrypt P (cipherKey P z) em=some payload:=by
  rw[symDecrypt,if_neg (by omega),←hem,symEncrypt,←hiv,take_left,drop_left,hP.xorKeyStream_twice]
 refine⟨P.marshal (P.publicKey (P.generateKey rand))++(em++P.hmac (macKey P z) em),?_,?_,fun key=>?_⟩
 ·rw[encrypt,hz]
  simp only[hem]
  exact if_neg (by omega)
 ·rw[decrypt_parts hP hne' (hP.hmac_length _ _) hz',if_pos rfl,hplain]
  rfl
 obtain⟨z',hkey,-⟩:=hP.shared key (P.generateKey rand)
 rw[decrypt_parts hP hne' (hP.hmac_length _ _) hkey]
 rcases eq_or_ne z z' with rfl|hzz
 ·rw[if_pos rfl,hplain]
  exact .inl rfl
 exact .inr (if_neg (hP.hmac_ne _ _ _ _ _ _ hz' hkey hzz))

lemma encrypt_nil(hP:Lawful P)(rand:Rand)(k:Priv):encrypt P rand (P.publicKey k) []=.ok []:=by
 obtain⟨z,hz,-⟩:=hP.shared (P.generateKey rand) k
 rw[encrypt,hz]
 refine if_pos ?_
 rw[symEncrypt,length_append,hP.generateIV_length,hP.xorKeyStream_length,length_nil]

variable (P) in
/-- The node has a message with the payload and, if there is a sender, the sender's key. -/
def Arrives (sender:Option Priv) (payload:Bytes) (r:Option (Option (Message Pub))):Prop:=
 ∃m,r=some (some m) ∧ m.payload=payload ∧ m.recover P=sender.map fun k=>some (P.publicKey k)

variable (P) in
/-- How an envelope opens: its message is `m` without a key, and otherwise as `m` decrypts. -/
structure Opens (e:Envelope) (m:Message Pub):Prop where
 plain:e.open P (none:Option Priv)=some (.message m)
 keyed:∀k,e.open P (some k)=(decrypt P k m.payload).map m.decrypted

lemma flag_cleared(flags:UInt8):(flags &&& ~~~signatureFlag) &&& signatureFlag≠signatureFlag:=by
 rw[UInt8.and_assoc,UInt8.and_comm (~~~signatureFlag)]
 simp[signatureFlag]

lemma flag_set(flags:UInt8):(flags ||| signatureFlag) &&& signatureFlag=signatureFlag:=by
 apply UInt8.toBitVec_inj.1
 ext i
 simp
 tauto

/-- A message with or without a signature, as the flag says, and the key that signed it. -/
lemma exists_signed(hP:Lawful P)(flags:UInt8)(payload:Bytes)(date:BitVec 32)
 (sender:Option Priv)(rand:Rand):∃m:Message Pub,m.payload=payload∧
  sender.elim (some (newMessage flags payload date))
   (Message.sign P (newMessage flags payload date) rand)=some m∧
  (∀body,splitData m.flags (m.signature.getD []++body)=some (m.signature,body))∧
  m.recover P=sender.map fun k=>some (P.publicKey k):=by
 cases sender with
 | none=>exact⟨_,rfl,rfl,fun body=>if_neg (flag_cleared flags),rfl⟩
 | some k=>
  let m:Message Pub:=newMessage flags payload date
  obtain⟨sig,hsig,hlen,hrec⟩:=hP.sign rand
   (Message.checksum P {m with flags:=m.flags ||| signatureFlag}) k (by
    rw[Message.checksum,BigEndianBytes.fixed_length])
  refine⟨{m with flags:=m.flags ||| signatureFlag,signature:=some sig},rfl,?_,fun body=>?_,?_⟩
  ·exact congrArg (Option.map _) hsig
  ·have hsplit:¬(sig++body).length<signatureLength:=by
    rw[length_append,hlen,signatureLength]
    omega
   rw[splitData,if_pos (flag_set _),getD_some,if_neg hsplit,signatureLength,←hlen,take_left,drop_left]
  exact (congrArg (Option.map P.unmarshal) hrec).trans (congrArg some (hP.unmarshal_marshal k))

lemma exists_encrypted(hP:Lawful P)(rand:Rand)(recipient:Option Priv)(m:Message Pub):∃c,
  (recipient.map P.publicKey).elim (some m) (Message.encrypt P m rand) = some {m with payload:=c}∧
  recipient.elim (c=m.payload) fun k=>encrypt P rand (P.publicKey k) m.payload=.ok c:=by
 cases recipient with
 | none=>exact⟨_,rfl,rfl⟩
 | some k=>
  have henc:∃c,encrypt P rand (P.publicKey k) m.payload=.ok c:=by
   by_cases hne:m.payload=[]
   ·rw[hne]
    exact⟨[],encrypt_nil hP rand k⟩
   obtain⟨c,hc,-⟩:=decrypt_encrypt hP rand k hne
   exact⟨c,hc⟩
  obtain⟨c,hc⟩:=henc
  refine⟨c,?_,hc⟩
  change ((encrypt P rand (P.publicKey k) m.payload).toOption.map _)=_
  rw[hc]
  rfl

lemma opens_of_bytes(hdata:e.data=Message.bytes m)
 (hsplit:splitData m.flags (m.signature.getD []++m.payload)=some (m.signature,m.payload)):
 Opens P e ⟨m.flags,m.signature,m.payload,e.expiry-e.ttl,e.ttl,none,e.hash P⟩:=by
 rw[Message.bytes]at hdata
 constructor<;>simp[Envelope.open,hdata,hsplit]

lemma wrap_opens(hP:Lawful P)(flags:UInt8)(payload:Bytes)(sender:Option Priv)
 (recipient:Option Priv)(signing encryption:Rand)(ttl now:ℕ)(date nonce:BitVec 32)
 (topics:List Topic):∃e m,wrap P ⟨sender,recipient.map P.publicKey,ttl,topics⟩ signing
  encryption now nonce (newMessage flags payload date)=some e∧Opens P e m∧
  ({m with payload:=payload}:Message Pub).recover P = sender.map (fun k=>some (P.publicKey k))∧
  recipient.elim (m.payload=payload) fun k=>
   encrypt P encryption (P.publicKey k) payload=.ok m.payload:=by
 obtain⟨m,rfl,hsigned,hsplit,hrecover⟩:=exists_signed hP flags payload date sender signing
 obtain⟨c,hc,hbody⟩:=exists_encrypted hP encryption recipient m
 rw[wrap,hsigned,bind_some,hc,map_some]
 exact⟨_,_,rfl,opens_of_bytes rfl (hsplit c),hrecover,hbody⟩

variable {m:Message Pub} {order:List Priv}

/-- A key that gives the payload is found behind keys that give it or fail. -/
lemma arrives_openWith(hopens:Opens P e m)(hrecover:({m with payload:=payload} :
 Message Pub).recover P=sender.map fun k=>some (P.publicKey k))
 (hkeys:∀k∈order,decrypt P k m.payload=some (.ok payload)∨
  decrypt P k m.payload=some (.error .invalidMessage))
 (hfound:∃k∈order,decrypt P k m.payload=some (.ok payload)):
 Arrives P sender payload (openWith P e order):=by
 induction order with
 | nil=>simp at hfound
 | cons k order ih=>
  rcases hkeys k mem_cons_self with hk|hk
  ·rw[openWith,hopens.keyed,hk]
   exact⟨_,rfl,rfl,hrecover⟩
  obtain⟨k',hmem,hk'⟩:=hfound
  have hmem':k'∈order:=by
   refine (mem_cons.1 hmem).resolve_left ?_
   rintro rfl
   simp[hk]at hk'
  rw[openWith,hopens.keyed,hk]
  exact ih (fun k hk=>hkeys k (mem_cons_of_mem _ hk)) ⟨k',hmem',hk'⟩

/-- What no key takes for clear, and each decrypts to something shorter or not at all. -/
lemma not_arrives_openWith(hP:Lawful P)(hopens:Opens P e m)(hpayload:m.payload=payload)
 (hclear:¬Clear P payload):¬Arrives P sender payload (openWith P e order):=by
 induction order with
 | nil=>rintro⟨m,h,-⟩;simp[openWith]at h
 | cons k order ih=>
  have hnot:decrypt P k payload≠some (.error .invalidPublicKey):=mt decrypt_invalidPublicKey_iff.1 hclear
  rw[openWith,hopens.keyed,hpayload]
  rcases hdec:decrypt P k payload with _|(err|text)
  ·rintro⟨m,h,-⟩
   simp at h
  ·cases err
   case invalidPublicKey=>exact absurd hdec hnot
   all_goals exact ih
  rintro⟨m,h,hm,-⟩
  obtain rfl:=some.inj (some.inj h)
  have:=decrypt_length_lt hP hdec
  rw[←hm]at this
  exact lt_irrefl _ this

variable (P) in
/-- A payload that is encrypted is not empty; one that is not is told from a ciphertext, unless
the reader has no identity. -/
def Sendable (recipient:Option Priv) (keys:List Priv) (payload:Bytes):Prop:=
 recipient.elim (keys=[] ∨ Clear P payload) fun _=>payload≠[]

/-- A wrapped message arrives at a node that should read it, whatever the order of its keys,
exactly when the payload is sendable. -/
theorem delivered_iff (hP : Lawful P) (flags : UInt8) (payload : Bytes) (sender : Option Priv)
    (recipient : Option Priv) (keys : List Priv) (hkeys : ∀ k, recipient = some k → k ∈ keys)
    (signing encryption : Rand) (ttl now : ℕ) (date nonce : BitVec 32) (topics : List Topic) :
    (∃ e, wrap P ⟨sender, recipient.map P.publicKey, ttl, topics⟩ signing encryption now nonce
        (newMessage flags payload date) = some e ∧
      ∀ order, order.Perm keys → Arrives P sender payload (openAny P e order)) ↔
    Sendable P recipient keys payload := by
 obtain⟨e,m,he,hopens,hrecover,hbody⟩:=wrap_opens hP flags payload sender recipient signing
  encryption ttl now date nonce topics
 simp only[he,some.injEq,exists_eq_left']
 cases recipient with
 | none =>
  obtain rfl:m.payload=payload:=hbody
  rw[Sendable,elim_none]
  by_cases hnil:keys=[]
  · refine iff_of_true (fun order ho=>?_) (.inl hnil)
    obtain rfl:order=[]:=(hnil▸ho).eq_nil
    rw[openAny,if_pos rfl,hopens.plain]
    exact⟨m,rfl,rfl,hrecover⟩
  rw[or_iff_right hnil]
  constructor
  · intro h
    by_contra hclear
    have hkeyed:=h keys (.refl _)
    rw[openAny,if_neg hnil] at hkeyed
    exact not_arrives_openWith hP hopens rfl hclear hkeyed
  intro hclear order ho
  have hne:order≠[]:=fun h=>hnil (h▸ho).nil_eq.symm
  rw[openAny,if_neg hne]
  obtain⟨k,order,rfl⟩:=exists_cons_of_ne_nil hne
  rw[openWith,hopens.keyed,decrypt_invalidPublicKey_iff.2 hclear]
  exact⟨m,rfl,rfl,hrecover⟩
 | some k =>
  have hk:=hkeys k rfl
  by_cases hnil:payload=[]
  · subst hnil
    refine iff_of_false (fun h=>?_) (absurd rfl)
    have hm:m.payload=[]:=Except.ok.inj (hbody.symm.trans (encrypt_nil hP encryption k))
    have hkeyed:=h keys (.refl _)
    rw[openAny,if_neg (ne_nil_of_mem hk)] at hkeyed
    exact not_arrives_openWith hP hopens hm (by simp[Clear]) hkeyed
  refine iff_of_true (fun order ho=>?_) hnil
  obtain⟨c,hc,hdec,hall⟩:=decrypt_encrypt hP encryption k hnil
  obtain rfl:m.payload=c:=Except.ok.inj (hbody.symm.trans hc)
  have hk':=ho.mem_iff.2 hk
  rw[openAny,if_neg (ne_nil_of_mem hk')]
  exact arrives_openWith hopens hrecover (fun key _=>hall key) ⟨k,hk',hdec⟩

lemma lawful_twoKeys:Lawful twoKeys where
 marshal_length _:=rfl
 marshal_format _:=rfl
 unmarshal_marshal k:=by cases k<;>rfl
 isOnCurve _:=rfl
 shared a b:=⟨_,rfl,by cases a<;>cases b<;>rfl⟩
 generateIV_length _:=rfl
 xorKeyStream_length _ _ _:=rfl
 xorKeyStream_twice _ _ _:=rfl
 hmac_length _ _:=rfl
 hmac_ne a b R z z' m hz hz':=by
  obtain rfl:=some.inj hz
  obtain rfl:=some.inj hz'
  change _→twoKeys.hmac _ []≠twoKeys.hmac _ []
  clear hz hz' m
  decide +revert
 sign _ _ k _:=⟨_,rfl,rfl,by cases k<;>rfl⟩

theorem delivered_iff_signed :
    (∀ k, some false = some k → k ∈ [true, false]) ∧
    ((∃ e, wrap twoKeys ⟨some true, (some false).map twoKeys.publicKey, 0, []⟩ () () 0 0
        (newMessage 7 [1, 2] 0) = some e ∧ ∀ order, order.Perm [true, false] →
          Arrives twoKeys (some true) [1, 2] (openAny twoKeys e order)) ↔
      Sendable twoKeys (some false) [true, false] [1, 2]) :=
 ⟨by simp,delivered_iff lawful_twoKeys 7 [1,2] (some true) (some false) [true,false] (by simp)
  () () 0 0 0 0 []⟩

/-- An empty payload for a recipient, and a clear one that begins like a point. -/
theorem opened_to_nothing :
    ((wrap twoKeys ⟨none, some true, 0, []⟩ () () 0 0 (newMessage 0 [] 0)).map fun e =>
      (openAny twoKeys e [true]).map Option.isSome) = some (some false) ∧
    ((wrap twoKeys ⟨none, none, 0, []⟩ () () 0 0 (newMessage 0 [4] 0)).map fun e =>
      (openAny twoKeys e [true]).map Option.isSome) = some (some false) := by
 decide +kernel

end GoCoupe.WhisperDelivery
