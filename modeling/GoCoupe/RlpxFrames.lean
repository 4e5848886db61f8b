import GoCoupe.RlpTypedRoundTrip
import GoCoupe.RlpxHandshake
import Mathlib.Tactic.NormNum

/-!
# RLPx frames

`rlpxFrameRW` of `p2p/rlpx.go`, over abstract ciphers and hashes. A cipher stream is its
position, a running hash and a connection are strings of bytes, and a payload to be written is
the list of pieces that its reader hands out.
-/

namespace GoCoupe.RlpxFrames
open BigEndianBytes RlpEncoding RlpStream Reading RlpStreamReading RlpValueReading RlpTypedValues Nat
open List
open RlpTypedEncoding RlpTreeRoundTrip RlpTypedReading RlpTypedRoundTrip RlpxHandshake

/-- The primitives: the key stream of a key, the encryption of one block and the hash. -/
structure Ciphers where
 keyStream:Bytes→ℕ→UInt8
 encryptBlock:Bytes→Bytes→Bytes
 sum:Bytes→Bytes
 block_length:∀key src,(encryptBlock key src).length=16
 sum_length:∀data,(sum data).length=32

/-- One end of a connection: the two keys, the positions of the cipher streams and the two
running hashes. -/
structure FrameRW where
 aes:Bytes
 mac:Bytes
 enc:ℕ
 dec:ℕ
 egressMAC:Bytes
 ingressMAC:Bytes
 deriving DecidableEq,Repr

def newRLPXFrameRW (s:Secrets):FrameRW:=⟨s.aes,s.mac,0,0,s.egressMAC,s.ingressMAC⟩

structure Msg where
 code:UInt64
 size:UInt32
 payload:List Bytes
 deriving DecidableEq,Repr

structure Received where
 code:UInt64
 size:UInt32
 payload:Bytes
 deriving DecidableEq,Repr

inductive FrameError where
 | sizeOverflow
 | shortRead
 | badHeaderMAC
 | badFrameMAC
 | badCode
 deriving DecidableEq,Repr

def maxUint24:UInt32:=0xFFFFFF
def zeroHeader:Bytes:=[0xC2,0x80,0x80]

variable (C:Ciphers)

def xorKeyStream (key:Bytes) (pos:ℕ) (data:Bytes):Bytes:=
 data.mapIdx (fun i b=>b ^^^ C.keyStream key (pos+i))

/-- The hash reseeded with the encrypted seed, and the first half of its new sum. -/
def updateMAC (key mac seed:Bytes):Bytes × Bytes:=
 let mac:=mac++(C.encryptBlock key (C.sum mac)).zipWith (· ^^^ ·) seed
 (mac,(C.sum mac).take 16)

def putInt24 (v:UInt32):Bytes:=[(v >>> 16).toUInt8,(v >>> 8).toUInt8,v.toUInt8]

def readInt24 (b:Bytes):UInt32:=
 (b.getD 2 0).toUInt32 ||| (b.getD 1 0).toUInt32 <<< 8 ||| (b.getD 0 0).toUInt32 <<< 16

def codeBytes (code:UInt64):Bytes:=
 match encodeToBytes (.uint .w64) code.toBitVec with
 | .ok (some b)=>b
 | _=>[]

structure Writing where
 out:Bytes
 rw:FrameRW

/-- The stream writer that also feeds the hash. -/
def teeWrite (w:Writing) (data:Bytes):Writing:=let c:=xorKeyStream C w.rw.aes w.rw.enc data
 ⟨w.out++c,{w.rw with
  enc:=w.rw.enc+data.length
  egressMAC:=w.rw.egressMAC++c}⟩

def frameSize (msg:Msg):UInt32:=UInt32.ofNat (codeBytes msg.code).length+msg.size

def header (fsize:UInt32):Bytes:=putInt24 fsize++zeroHeader++replicate 10 0

def writeHeader (rw:FrameRW) (fsize:UInt32):Writing:=
 let head:=xorKeyStream C rw.aes rw.enc (header fsize)
 let (egressMAC,mac):=updateMAC C rw.mac rw.egressMAC head
 ⟨head++mac,{rw with enc:=rw.enc+16,egressMAC:=egressMAC}⟩

def padding (fsize:UInt32):Bytes:=
 if fsize%16>0 then replicate (16-(fsize%16).toNat) 0 else []

def writeFrameMAC (w:Writing):Writing:=
 let (egressMAC,mac):=updateMAC C w.rw.mac w.rw.egressMAC (C.sum w.rw.egressMAC)
 ⟨w.out++mac,{w.rw with egressMAC:=egressMAC}⟩

def writeMsg (rw:FrameRW) (msg:Msg):Except FrameError Writing:=let fsize:=frameSize msg
 if fsize>maxUint24 then .error .sizeOverflow
 else
  let w:=writeHeader C rw fsize
  let w:=teeWrite C w (codeBytes msg.code)
  let w:=msg.payload.foldl (teeWrite C) w
  let w:=if fsize%16>0 then teeWrite C w (padding fsize) else w
  .ok (writeFrameMAC C w)

/-- `io.ReadFull`: the bytes read and the rest of the connection. -/
def readFull (conn:Bytes) (n:ℕ):Except FrameError (Bytes × Bytes):=
 if conn.length<n then .error .shortRead else .ok (conn.take n,conn.drop n)

/-- `rlp.Decode(content, &msg.Code)`: the code and what is left of the content. -/
def decodeCode (content:Bytes):Except FrameError (UInt64 × Bytes):=
 match decodeUint .w64 (newStream content) with
 | some (.ok code,s)=>.ok (UInt64.ofBitVec code,s.r)
 | _=>.error .badCode

def readHeader (rw:FrameRW) (conn:Bytes):Except FrameError (UInt32 × Bytes × FrameRW):=do
 let (headbuf,conn) ← readFull conn 32
 let (ingressMAC,shouldMAC):=updateMAC C rw.mac rw.ingressMAC (headbuf.take 16)
 if shouldMAC≠headbuf.drop 16 then throw .badHeaderMAC
 let head:=xorKeyStream C rw.aes rw.dec (headbuf.take 16)
 return (readInt24 head,conn,{rw with dec:=rw.dec+16,ingressMAC:=ingressMAC})

def roundedSize (fsize:UInt32):UInt32:=if fsize%16>0 then fsize+(16-fsize%16) else fsize

/-- The plain content of a frame. -/
def readFrame (rw:FrameRW) (fsize:UInt32) (conn:Bytes):
 Except FrameError (Bytes × Bytes × FrameRW):=do
 let (framebuf,conn) ← readFull conn (roundedSize fsize).toNat
 let ingressMAC:=rw.ingressMAC++framebuf
 let fmacseed:=C.sum ingressMAC
 let (mac,conn) ← readFull conn 16
 let (ingressMAC,shouldMAC):=updateMAC C rw.mac ingressMAC fmacseed
 if shouldMAC≠mac then throw .badFrameMAC
 let plain:=xorKeyStream C rw.aes rw.dec framebuf
 return (plain.take fsize.toNat,conn,{rw with dec:=rw.dec+framebuf.length,ingressMAC:=ingressMAC})

def readMsg (rw:FrameRW) (conn:Bytes):Except FrameError (Received × Bytes × FrameRW):=do
 let (fsize,conn,rw) ← readHeader C rw conn
 let (content,conn,rw) ← readFrame C rw fsize conn
 let (code,payload) ← decodeCode content
 return (⟨code,UInt32.ofNat payload.length,payload⟩,conn,rw)

variable (key:Bytes)

@[simp] lemma xorKeyStream_length(pos:ℕ)(data:Bytes):
 (xorKeyStream C key pos data).length=data.length:=length_mapIdx

lemma xorKeyStream_append(pos:ℕ)(a b:Bytes):
 xorKeyStream C key pos (a++b)=xorKeyStream C key pos a++xorKeyStream C key (pos+a.length) b:=by
 simp only[xorKeyStream,mapIdx_append,add_assoc,add_comm a.length]

/-- The same piece of the key stream decrypts. -/
lemma xorKeyStream_xorKeyStream(pos:ℕ)(data:Bytes):
 xorKeyStream C key pos (xorKeyStream C key pos data)=data:=by
 apply ext_getElem
 ·simp
 intro i hi hi'
 simp[xorKeyStream,UInt8.xor_assoc]

lemma updateMAC_length(mac seed:Bytes):(updateMAC C key mac seed).2.length=16:=by
 simp[updateMAC,C.sum_length]

lemma shifted_byte(hx:x<2^8)(hk:k≤16):x*2^k%2^32=2^k*x:=by
 rw[mul_comm,mod_eq_of_lt]
 calc 2^k*x<2^k*2^8:=Nat.mul_lt_mul_of_pos_left hx (Nat.two_pow_pos k)
  _=2^(k+8):=(pow_add 2 k 8).symm
  _≤2^32:=Nat.pow_le_pow_right (by decide) (by omega)

lemma readInt24_header(h:v ≤ maxUint24):readInt24 (header v)=v:=by
 have hn:v.toNat≤0xFFFFFF:=UInt32.le_iff_toNat_le.1 h
 have h8:(8:UInt32).toNat%32=8:=rfl
 have h16:(16:UInt32).toNat%32=16:=rfl
 change v.toUInt8.toUInt32 ||| (v >>> 8).toUInt8.toUInt32 <<< 8 |||
  (v >>> 16).toUInt8.toUInt32 <<< 16=v
 apply UInt32.toNat_inj.1
 simp only[UInt32.toNat_or,UInt8.toNat_toUInt32,UInt32.toNat_toUInt8,UInt32.toNat_shiftLeft,
  UInt32.toNat_shiftRight,h8,h16,Nat.shiftLeft_eq,Nat.shiftRight_eq_div_pow]
 rw[shifted_byte (Nat.mod_lt _ (by decide)) (by decide),
  shifted_byte (Nat.mod_lt _ (by decide)) (by decide),Nat.or_comm (v.toNat%2^8),
  ←Nat.two_pow_add_eq_or_of_lt (Nat.mod_lt _ (by decide)),Nat.or_comm,
  ←Nat.two_pow_add_eq_or_of_lt]
 ·norm_num
  omega
 norm_num
 omega

lemma codeBytes_eq(code:UInt64):codeBytes code=encode (.string (shortest code.toNat)):=by
 have henc:encodeToBytes (.uint .w64) code.toBitVec = .ok (some (encode (.string (shortest code.toNat)))):=
  @encodeToBytes_eq (.uint .w64) code.toBitVec trivial
 rw[codeBytes,henc]

lemma codeBytes_length_le(code:UInt64):(codeBytes code).length≤17:=by
 have hwidth:(shortest code.toNat).length≤8:=by
  rw[shortest_length]
  exact width_le_iff.2 code.toNat_lt
 have henc:=RlpRawSplitting.encodeString_length (shortest code.toNat)
 rw[codeBytes_eq,encode]
 omega

lemma ready_newStream(b:Bytes):Ready (newStream b):=⟨⟨rfl,rfl⟩,rfl⟩

lemma decodeCode_codeBytes(code:UInt64)(payload:Bytes):
 decodeCode (codeBytes code++payload)=.ok (code,payload):=by
 obtain⟨s',hs',hmoved,-⟩:=@decodeUint_reads .w64 code.toBitVec True
  (newStream (codeBytes code++payload)) payload (ready_newStream _)
  (by rw[codeBytes_eq];rfl) (fits_nil _)
 have hrest:s'.r=payload:=by
  rw[hmoved.r,codeBytes_eq]
  exact drop_left' rfl
 simp only[decodeCode,hs',hrest]

lemma decodeCode_rest_le(h:decodeCode content=.ok (code,payload)):payload.length≤content.length:=by
 unfold decodeCode at h
 split at h
 ·rename_i code' s hdec
  rw[decodeUint,bind_eq_ok]at hdec
  obtain⟨num,t,hnum,hpure⟩:=hdec
  obtain⟨-,rfl⟩:=eq_of_pure hpure
  obtain⟨m,hpast,-,-⟩:=used_of_uint (.inl (ready_newStream content)) (by decide)
   (by decide) (wrap_eq_ok.1 hnum)
  cases h
  rw[hpast.r,length_drop]
  exact sub_le _ _
 cases h

variable {C:Ciphers}

/-- What `a` writes is what `b` expects: the same keys, the streams at the same position and the
same running hash. -/
structure InStep (a b:FrameRW):Prop where
 aes:a.aes=b.aes
 mac:a.mac=b.mac
 stream:a.enc=b.dec
 hash:a.egressMAC=b.ingressMAC

/-- Two ends with mirrored secrets, in step in both directions. -/
structure Linked (a b:FrameRW):Prop where
 forth:InStep a b
 back:InStep b a

lemma teeWrite_nil(w:Writing):teeWrite C w []=w:=by
 simp[teeWrite,xorKeyStream]

lemma teeWrite_teeWrite(w:Writing)(a b:Bytes):teeWrite C (teeWrite C w a) b=teeWrite C w (a++b):=by
 simp only[teeWrite,xorKeyStream_append,append_assoc,length_append,add_assoc]

lemma foldl_teeWrite(w:Writing)(pieces:List Bytes):
 pieces.foldl (teeWrite C) w=teeWrite C w pieces.flatten:=by
 induction pieces generalizing w with
 | nil=>exact (teeWrite_nil w).symm
 | cons p pieces ih=>rw[foldl_cons,ih,teeWrite_teeWrite,flatten_cons]

def body (msg:Msg):Bytes:=codeBytes msg.code++msg.payload.flatten++padding (frameSize msg)

variable {msg:Msg} {a b:FrameRW} {fsize:UInt32}

lemma writeMsg_eq(h:frameSize msg ≤ maxUint24):writeMsg C rw msg =
  .ok (writeFrameMAC C (teeWrite C (writeHeader C rw (frameSize msg)) (body msg))):=by
 rw[writeMsg]
 dsimp only
 rw[if_neg (UInt32.not_lt.2 h),foldl_teeWrite,body]
 split
 ·rw[teeWrite_teeWrite,teeWrite_teeWrite,append_assoc]
 rename_i hpad
 rw[teeWrite_teeWrite,padding,if_neg hpad,append_nil]

lemma writeMsg_overflow(h:¬frameSize msg ≤ maxUint24):writeMsg C rw msg=.error .sizeOverflow:=by
 rw[writeMsg]
 dsimp only
 rw[if_pos (UInt32.not_le.1 h)]

lemma writeHeader_out(rw:FrameRW)(fsize:UInt32):
 (writeHeader C rw fsize).out=xorKeyStream C rw.aes rw.enc (header fsize) ++
  (updateMAC C rw.mac rw.egressMAC (xorKeyStream C rw.aes rw.enc (header fsize))).2:=rfl

lemma header_length(fsize:UInt32):(header fsize).length=16:=rfl

lemma readFull_append{a b:Bytes}(h:a.length=n):readFull (a++b) n=.ok (a,b):=by
 rw[readFull,if_neg (by rw[length_append,h];omega),take_left' h,drop_left' h]

lemma readHeader_writeHeader(h:InStep a b)(hsize:fsize ≤ maxUint24)(rest:Bytes):
 readHeader C b ((writeHeader C a fsize).out++rest)=.ok (fsize,rest,{b with
  dec:=b.dec+16,ingressMAC:=(writeHeader C a fsize).rw.egressMAC}):=by
 have hhead:(xorKeyStream C a.aes a.enc (header fsize)).length=16:=by
  rw[xorKeyStream_length,header_length]
 have hmac:=updateMAC_length C a.mac a.egressMAC (xorKeyStream C a.aes a.enc (header fsize))
 have hout:(writeHeader C a fsize).out.length=32:=by
  rw[writeHeader_out,length_append,hhead,hmac]
 have htake:(writeHeader C a fsize).out.take 16=xorKeyStream C a.aes a.enc (header fsize):=take_left' hhead
 have hdrop:(writeHeader C a fsize).out.drop 16 =
  (updateMAC C a.mac a.egressMAC (xorKeyStream C a.aes a.enc (header fsize))).2:=
  drop_left' hhead
 simp only[readHeader,readFull_append hout,bind,Except.bind,htake,hdrop,←h.mac,←h.hash,
  ←h.aes,←h.stream,ne_eq,not_true_eq_false,if_false,xorKeyStream_xorKeyStream,
  readInt24_header hsize,pure,Except.pure]
 rfl

/-- The other end reads a frame whose body has the rounded size. -/
lemma readFrame_teeWrite{w:Writing}(h:InStep w.rw b){data:Bytes}
 (hdata:data.length=(roundedSize fsize).toNat)(rest:Bytes):
 readFrame C b fsize (xorKeyStream C w.rw.aes w.rw.enc data ++
  ((updateMAC C w.rw.mac (teeWrite C w data).rw.egressMAC
   (C.sum (teeWrite C w data).rw.egressMAC)).2++rest)) =
  .ok (data.take fsize.toNat,rest,{b with
   dec:=b.dec+data.length
   ingressMAC:=(writeFrameMAC C (teeWrite C w data)).rw.egressMAC}):=by
 have hlen:(xorKeyStream C w.rw.aes w.rw.enc data).length=(roundedSize fsize).toNat:=by
  rw[xorKeyStream_length,hdata]
 have hmac:=updateMAC_length C w.rw.mac (teeWrite C w data).rw.egressMAC
  (C.sum (teeWrite C w data).rw.egressMAC)
 have hhash:b.ingressMAC++xorKeyStream C w.rw.aes w.rw.enc data=(teeWrite C w data).rw.egressMAC:=by
  rw[←h.hash]
  rfl
 simp only[readFrame,readFull_append hlen,readFull_append hmac,bind,Except.bind,hhash,
  ←h.mac,ne_eq,not_true_eq_false,if_false,←h.aes,←h.stream,xorKeyStream_xorKeyStream,
  xorKeyStream_length,pure,Except.pure]
 rfl

/-- The frame size is not the sum of the two lengths when that sum leaves 32 bits. -/
def SizeFits (msg:Msg):Prop:=(codeBytes msg.code).length+msg.size.toNat<2^32

instance sizeFits_decidable (msg:Msg):Decidable (SizeFits msg):=inferInstanceAs (Decidable (_<_))

def Announced (msg:Msg):Prop:=msg.payload.flatten.length=msg.size.toNat

lemma frameSize_toNat(msg:Msg):
 (frameSize msg).toNat=((codeBytes msg.code).length+msg.size.toNat)%2^32:=by
 rw[frameSize,UInt32.toNat_add,UInt32.toNat_ofNat',mod_add_mod]

lemma frameSize_of_fits(h:SizeFits msg):
 (frameSize msg).toNat=(codeBytes msg.code).length+msg.size.toNat:=by
 rw[frameSize_toNat,mod_eq_of_lt h]

/-- A wrapped size is small, and smaller than the payload. -/
lemma frameSize_of_not_fits(h:¬SizeFits msg):
 frameSize msg ≤ maxUint24∧(frameSize msg).toNat < msg.size.toNat:=by
 have hcode:=codeBytes_length_le msg.code
 have hsize:=msg.size.toNat_lt
 have hover:2^32≤(codeBytes msg.code).length+msg.size.toNat:=not_lt.1 h
 have hwrapped:(frameSize msg).toNat=(codeBytes msg.code).length+msg.size.toNat-2^32:=by
  rw[frameSize_toNat,mod_eq_sub_mod hover,mod_eq_of_lt (by omega)]
 refine⟨UInt32.le_iff_toNat_le.2 ?_,by omega⟩
 change _≤0xFFFFFF
 omega

lemma padding_length(fsize:UInt32)(h:fsize ≤ maxUint24):
 fsize.toNat+(padding fsize).length=(roundedSize fsize).toNat:=by
 have hn:fsize.toNat≤0xFFFFFF:=UInt32.le_iff_toNat_le.1 h
 have hmod:(fsize%16).toNat=fsize.toNat%16:=rfl
 have hsub:(16-fsize%16).toNat=16-fsize.toNat%16:=by
  rw[UInt32.toNat_sub_of_le _ _ (UInt32.le_iff_toNat_le.2 (by rw[hmod];exact
   (mod_lt _ (by decide)).le)),hmod]
  rfl
 unfold padding roundedSize
 split
 ·have hlt:fsize.toNat+(16-fsize.toNat%16)<2^32:=by omega
  rw[length_replicate,UInt32.toNat_add,hsub,hmod,mod_eq_of_lt hlt]
 rfl

def afterReading (b:FrameRW) (w:Writing) (n:ℕ):FrameRW:=
 {b with dec:=b.dec+16+n,ingressMAC:=w.rw.egressMAC}

lemma InStep.afterReading(h:InStep a b)(fsize:UInt32)(data:Bytes):
 InStep (writeFrameMAC C (teeWrite C (writeHeader C a fsize) data)).rw
  (afterReading b (writeFrameMAC C (teeWrite C (writeHeader C a fsize) data)) data.length):=
 ⟨h.aes,h.mac,congrArg (· + 16+data.length) h.stream,rfl⟩

lemma writeFrameMAC_out(w:Writing)(data rest:Bytes):
 (writeFrameMAC C (teeWrite C w data)).out++rest=w.out++(xorKeyStream C w.rw.aes w.rw.enc data ++
   ((updateMAC C w.rw.mac (teeWrite C w data).rw.egressMAC
    (C.sum (teeWrite C w data).rw.egressMAC)).2++rest)):=by
 simp only[writeFrameMAC,teeWrite,append_assoc]

lemma body_length(hpay:Announced msg)(hfits:SizeFits msg)(hsize:frameSize msg ≤ maxUint24):
 (body msg).length=(roundedSize (frameSize msg)).toNat:=by
 rw[←padding_length _ hsize,frameSize_of_fits hfits,←hpay,body,length_append,length_append]

lemma body_take(hpay:Announced msg)(hfits:SizeFits msg):
 (body msg).take (frameSize msg).toNat=codeBytes msg.code++msg.payload.flatten:=by
 rw[frameSize_of_fits hfits,←hpay,body]
 exact take_left' length_append

lemma readMsg_writeMsg(h:InStep a b)(hpay:Announced msg)(hfits:SizeFits msg)
 (hsize:frameSize msg ≤ maxUint24)(rest:Bytes):
 readMsg C b ((writeFrameMAC C
  (teeWrite C (writeHeader C a (frameSize msg)) (body msg))).out++rest) =
  .ok (⟨msg.code,msg.size,msg.payload.flatten⟩,rest,afterReading b
   (writeFrameMAC C (teeWrite C (writeHeader C a (frameSize msg)) (body msg)))
   (body msg).length):=by
 have hread:InStep (writeHeader C a (frameSize msg)).rw {b with
  dec:=b.dec+16
  ingressMAC:=(writeHeader C a (frameSize msg)).rw.egressMAC}:=
  ⟨h.aes,h.mac,congrArg (· + 16) h.stream,rfl⟩
 have hsz:UInt32.ofNat msg.payload.flatten.length=msg.size:=by
  rw[hpay,UInt32.ofNat_toNat]
 simp only[writeFrameMAC_out,readMsg,readHeader_writeHeader h hsize,bind,Except.bind,
  readFrame_teeWrite hread (body_length hpay hfits hsize),body_take hpay hfits,
  decodeCode_codeBytes,hsz]
 rfl

lemma content_le_of_readFrame
 (h:readFrame C b fsize conn=.ok (content,rest,b')):content.length≤fsize.toNat:=by
 obtain⟨⟨framebuf,conn⟩,-,h⟩:=ok_of_bind h
 obtain⟨⟨mac,conn⟩,-,h⟩:=ok_of_bind h
 dsimp only at h
 split at h
 ·cases h
 cases h
 exact length_take_le _ _

/-- What is read has at most the announced size. -/
lemma payload_le_of_readMsg(h:InStep a b)(hsize:fsize ≤ maxUint24)

 (hread:readMsg C b ((writeHeader C a fsize).out++more)=.ok (r,rest,b')) :
 r.payload.length≤fsize.toNat:=by
 obtain⟨⟨fsize',conn,rw'⟩,hhead,hread⟩:=ok_of_bind hread
 rw[readHeader_writeHeader h hsize] at hhead
 cases hhead
 obtain⟨⟨content,conn,rw'⟩,hframe,hread⟩:=ok_of_bind hread
 obtain⟨⟨code,payload⟩,hcode,hread⟩:=ok_of_bind hread
 cases hread
 exact (decodeCode_rest_le hcode).trans (content_le_of_readFrame hframe)

variable (C:Ciphers)

inductive Direction where
 | forth
 | back
 deriving DecidableEq,Repr

/-- Writing fails and leaves the end as it is, or the other end reads code and payload of the
message and nothing else, and the ends go on in step. -/
def Carried (a b:FrameRW) (msg:Msg) (Next:FrameRW→FrameRW→Prop):Prop:=
 match writeMsg C a msg with
 | .error _=>Next a b
 | .ok w=>∃b',(∀rest,readMsg C b (w.out++rest) =
  .ok (⟨msg.code,msg.size,msg.payload.flatten⟩,rest,b')) ∧ Linked w.rw b' ∧ Next w.rw b'

/-- Every message of the sequence is carried, in order. -/
def Delivers:FrameRW→FrameRW→List (Direction × Msg)→Prop
 | _,_,[]=>True
 | a,b,(.forth,msg)::ms=>Carried C a b msg (fun a b=>Delivers a b ms)
 | a,b,(.back,msg)::ms=>Carried C b a msg (fun b a=>Delivers a b ms)

lemma Linked.symm(h:Linked a b):Linked b a:=⟨h.back,h.forth⟩

variable {C}

lemma carried_iff(h:Linked a b)(hpay:Announced msg)(hnext:∀a b,Linked a b→(Next a b↔Rest)):
 Carried C a b msg Next↔SizeFits msg∧Rest:=by
 by_cases hsize:frameSize msg ≤ maxUint24
 ·rw[Carried,writeMsg_eq hsize]
  dsimp only
  constructor
  ·rintro⟨b',hread,hlinked,hrest⟩
   refine⟨?_,(hnext _ _ hlinked).1 hrest⟩
   by_contra hfits
   have hread:=hread []
   rw[writeFrameMAC_out]at hread
   have hle:=payload_le_of_readMsg h.forth hsize hread
   have hlt:=(frameSize_of_not_fits hfits).2
   dsimp only at hle
   rw[hpay]at hle
   omega
  rintro⟨hfits,hrest⟩
  have hlinked:=Linked.mk (h.forth.afterReading (C:=C) (frameSize msg) (body msg))
   ⟨h.back.aes,h.back.mac,h.back.stream,h.back.hash⟩
  exact⟨_,readMsg_writeMsg h.forth hpay hfits hsize,hlinked,(hnext _ _ hlinked).2 hrest⟩
 have hfits:SizeFits msg:=by
  by_contra hfits
  exact hsize (frameSize_of_not_fits hfits).1
 rw[Carried,writeMsg_overflow hsize]
 exact (hnext a b h).trans (and_iff_right hfits).symm

lemma delivers_iff(h:Linked a b)(hpay:∀m∈ms,Announced m.2):Delivers C a b ms↔∀m∈ms,SizeFits m.2:=by
 induction ms generalizing a b with
 | nil=>simp[Delivers]
 | cons m ms ih=>
  obtain⟨dir,msg⟩:=m
  have hmsg:Announced msg:=hpay _ mem_cons_self
  have hrest:∀m∈ms,Announced m.2:=fun m hm=>hpay m (mem_cons_of_mem _ hm)
  rw[forall_mem_cons]
  cases dir with
  | forth=>exact carried_iff h hmsg (fun a b hab=>ih hab hrest)
  | back=>exact carried_iff h.symm hmsg (fun b a hba=>ih hba.symm hrest)

lemma linked_of_mirrored(h:Mirrored ours theirs):
 Linked (newRLPXFrameRW ours) (newRLPXFrameRW theirs):=
 ⟨⟨h.aes,h.mac,rfl,h.forth⟩,⟨h.aes.symm,h.mac.symm,rfl,h.back.symm⟩⟩

/-- Over two ends with mirrored secrets a sequence of messages is delivered exactly when no frame
size leaves 32 bits. -/
theorem frames_delivered_iff {ours theirs : Secrets} (h : Mirrored ours theirs)
    {ms : List (Direction × Msg)} (hpay : ∀ m ∈ ms, Announced m.2) :
    Delivers C (newRLPXFrameRW ours) (newRLPXFrameRW theirs) ms ↔ ∀ m ∈ ms, SizeFits m.2 :=
 delivers_iff (linked_of_mirrored h) hpay

def sampleCiphers:Ciphers where
 keyStream key i:=UInt8.ofNat (key.length+i)
 encryptBlock key src:=(key++src).takeD 16 0
 sum data:=data.takeD 32 0
 block_length key src:=takeD_length 16 (key++src) 0
 sum_length data:=takeD_length 32 data 0

def sampleSecrets:Secrets:=⟨[],[1],[2],[3],[4],[]⟩

def sampleSecrets':Secrets:=⟨[],[1],[2],[4],[3],[]⟩

lemma mirrored_sampleSecrets:Mirrored sampleSecrets sampleSecrets':=⟨rfl,rfl,rfl,rfl,rfl⟩

/-- A message in two pieces and its answer. -/
def sampleMessages:List (Direction × Msg):=[(.forth,⟨8,4,[[1],[2,3,4]]⟩),(.back,⟨1000,0,[]⟩)]

theorem frames_delivered_sample :
    Delivers sampleCiphers (newRLPXFrameRW sampleSecrets) (newRLPXFrameRW sampleSecrets')
      sampleMessages := by
 refine (frames_delivered_iff mirrored_sampleSecrets ?_).2 ?_
 · rw[sampleMessages,forall_mem_cons,forall_mem_singleton]
   exact⟨rfl,rfl⟩
 rw[sampleMessages,forall_mem_cons,forall_mem_singleton]
 exact⟨(add_le_add_right (codeBytes_length_le 8) 4).trans_lt (by decide),
  (add_le_add_right (codeBytes_length_le 1000) 0).trans_lt (by decide)⟩

/-- The largest announced size, with a code of one byte: the frame size is zero. -/
def wrappingMsg:Msg:=⟨0,0xFFFFFFFF,[replicate 0xFFFFFFFF 0]⟩

lemma announced_wrappingMsg:Announced wrappingMsg:=by
 rw[Announced,wrappingMsg,flatten_singleton,length_replicate]
 rfl

lemma not_sizeFits_wrappingMsg:¬SizeFits wrappingMsg:=by
 have hcode:codeBytes 0=[0x80]:=by decide
 change ¬(codeBytes 0).length+0xFFFFFFFF<2^32
 rw[hcode]
 decide

theorem wrapping_frame_not_delivered :
    Mirrored sampleSecrets sampleSecrets' ∧ Announced wrappingMsg ∧
    ¬Delivers sampleCiphers (newRLPXFrameRW sampleSecrets) (newRLPXFrameRW sampleSecrets')
      [(.forth, wrappingMsg)] := by
 refine⟨mirrored_sampleSecrets,announced_wrappingMsg,fun hdel=>?_⟩
 refine not_sizeFits_wrappingMsg ((delivers_iff (linked_of_mirrored mirrored_sampleSecrets)
  ?_).1 hdel _ mem_cons_self)
 rw[forall_mem_singleton]
 exact announced_wrappingMsg

end GoCoupe.RlpxFrames
