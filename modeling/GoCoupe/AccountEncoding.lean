import GoCoupe.BlockWireCanonicity
import GoCoupe.TrieOperations

/-!
# Encoded accounts

Accounts are written by `common.Encode` of `common/rlp.go`, which turns a nonce into an `int64`
and writes absolute values, and read back by the decoder of the `rlp` package.
-/

namespace GoCoupe.AccountEncoding

open BigEndianBytes RlpEncoding RlpStream RlpTypedValues RlpTypedEncoding RlpTypedReading List Option
open RlpTreeRoundTrip RlpValueReading RlpStreamReading TrieOperations
open RlpRawSplitting hiding readKind

def encodeBytes (t:Bytes):Bytes:=if t.length=1 ∧ t.head?.any (·≤0x7f) then t
 else if t.length<56 then UInt8.ofNat (t.length+0x80)::t
 else
  let b:=shortest t.length
  UInt8.ofNat (b.length+0xb7)::(b++t)

def writeSliceHeader (length:ℕ):Bytes:=if length<56 then [UInt8.ofNat (length+0xc0)]
 else
  let b:=shortest length
  UInt8.ofNat (b.length+0xf7)::b

/-- `Encode` of a `uint64`, through `big.NewInt(int64(t))`. -/
def encodeUint64 (t:BitVec 64):Bytes:=encodeBytes (shortest t.toInt.natAbs)

def encodeBigInt (t:ℤ):Bytes:=encodeBytes (shortest t.natAbs)

lemma ofNat_add(a b:ℕ):UInt8.ofNat (a+b)=UInt8.ofNat b+UInt8.ofNat a:=by
 rw[Nat.add_comm,UInt8.ofNat_add]

lemma writeSliceHeader_eq(h:n<2^64):writeSliceHeader n=puthead 0xC0 0xF7 n:=by
 rw[writeSliceHeader,puthead]
 split
 ·rw[ofNat_add]
  rfl
 rename_i hbig
 dsimp only
 rw[putint_eq_shortest (by omega) h,ofNat_add]
 rfl

lemma encodeBytes_eq(h:t.length<2^64):encodeBytes t=encodeString t:=by
 rw[encodeBytes]
 rcases header_string h with⟨x,rfl,hx,henc,-⟩|⟨hc,henc,-⟩
 ·rw[henc,if_pos]
  have hle:x≤0x7f:=UInt8.le_iff_toNat_le.2 (by simp;omega)
  exact⟨rfl,by simpa using hle⟩
 have hnot:¬(t.length=1∧t.head?.any (·≤0x7f)=true):=by
  rintro⟨hone,hsmall⟩
  obtain⟨c,rfl⟩:=length_eq_one_iff.1 hone
  have hbig:=hc c rfl
  have hle:c≤0x7f:=by simpa using hsmall
  have hle':c.toNat≤127:=UInt8.le_iff_toNat_le.1 hle
  omega
 rw[henc,if_neg hnot,puthead]
 split
 ·rw[ofNat_add]
  rfl
 rename_i hbig
 dsimp only
 rw[putint_eq_shortest (by omega) h,ofNat_add]
 rfl

lemma natAbs_toInt_le(x:BitVec 64):x.toInt.natAbs≤2^63:=by
 have hlo:=BitVec.le_two_mul_toInt (x:=x)
 have hhi:=BitVec.two_mul_toInt_lt (x:=x)
 norm_num at hlo hhi
 omega

lemma length_shortest_nonce(nonce:BitVec 64):(shortest nonce.toInt.natAbs).length≤8:=by
 rw[shortest_length,width_le_iff]
 exact (natAbs_toInt_le nonce).trans_lt (by norm_num)

lemma le_encodeBytes(t:Bytes):t.length≤(encodeBytes t).length:=by
 unfold encodeBytes
 split
 ·rfl
 split<;>simp
 omega

/-- The nonce that is read back for a nonce that was written. -/
def storedNonce (nonce:BitVec 64):BitVec 64:=BitVec.ofNat 64 nonce.toInt.natAbs

lemma toNat_storedNonce(nonce:BitVec 64):(storedNonce nonce).toNat=nonce.toInt.natAbs:=by
 have hle:=natAbs_toInt_le nonce
 rw[storedNonce,BitVec.toNat_ofNat,Nat.mod_eq_of_lt (by omega)]

/-- A nonce is read back unless it is above `2 ^ 63`. -/
lemma storedNonce_eq_iff(nonce:BitVec 64):storedNonce nonce=nonce↔nonce.toNat≤2^63:=by
 rw[←BitVec.toNat_inj,toNat_storedNonce,BitVec.toInt_eq_toNat_cond]
 have hlt:=nonce.isLt
 split<;>omega

/-- What both encoders take. A typed slice is written through reflection. -/
inductive Tree where
 | bytes (b:Bytes)
 | uint64 (n:BitVec 64)
 | bigInt (i:ℕ)
 | list (xs:List Tree)
 | slice (xs:List Tree)

def intlen (i:ℕ):ℕ:=if h:i=0 then 0 else intlen (i/256)+1
decreasing_by omega

def reflectHeader (blen:ℕ):Bytes:=if blen<56 then [UInt8.ofNat blen+0xc0]
 else (UInt8.ofNat (intlen blen)+0xf7)::fixed (intlen blen) blen

namespace Tree

mutual

/-- `common.Encode`. -/
def encoded:Tree→Bytes
 | .bytes b=>encodeBytes b
 | .uint64 n=>encodeUint64 n
 | .bigInt i=>encodeBigInt i
 | .list xs=>writeSliceHeader (encodeds xs).length++encodeds xs
 | .slice xs=>reflectHeader (encodeds xs).length++encodeds xs

def encodeds:List Tree→Bytes
 | []=>[]
 | x::xs=>encoded x++encodeds xs

end

mutual

/-- The writers of the `rlp` package. -/
def writer:Tree→EncBuf→Writing
 | .bytes b,w=>.ok (w.encodeString b)
 | .uint64 n,w=>.ok (writeUint n.toNat w)
 | .bigInt i,w=>writeBigInt i w
 | .list xs,w=>writeList (writers xs) w
 | .slice xs,w=>writeList (writers xs) w

def writers:List Tree→EncBuf→Writing
 | [],w=>.ok w
 | x::xs,w=>do writers xs (← writer x w)

end

def encodeToBytes (t:Tree):Except EncodeError (Option Bytes):=do
 return toBytes (← t.writer .empty)

mutual

/-- The tree of byte strings that is written when a `uint64` is taken for a number. -/
def item (number:BitVec 64→ℕ):Tree→Item
 | .bytes b=>.string b
 | .uint64 n=>.string (shortest (number n))
 | .bigInt i=>.string (shortest i)
 | .list xs=>.list (items number xs)
 | .slice xs=>.list (items number xs)

def items (number:BitVec 64→ℕ):List Tree→List Item
 | []=>[]
 | x::xs=>item number x::items number xs

end

mutual

/-- No `uint64` is above `2 ^ 63`. -/
def Signed:Tree→Prop
 | .uint64 n=>n.toNat≤2^63
 | .bytes _ | .bigInt _=>True
 | .list xs | .slice xs=>AllSigned xs

def AllSigned:List Tree→Prop
 | []=>True
 | x::xs=>Signed x ∧ AllSigned xs

end

lemma intlen_eq_width(i:ℕ):intlen i=width i:=by
 induction i using Nat.strong_induction_on with
 | _ i ih=>
  rw[intlen]
  split
  ·rename_i hzero
   rw[hzero]
   rfl
  rename_i hpos
  have hstep:∀w,width i≤w+1↔width (i/256)≤w:=fun w=>by
   rw[width_le_iff,width_le_iff,Nat.div_lt_iff_lt_mul (by norm_num),pow_succ]
  have hone:¬width i≤0:=by
   rw[width_le_iff]
   omega
  have hle:=(hstep (width (i/256))).2 le_rfl
  have hge:=(hstep (width i-1)).1 (by omega)
  rw[ih _ (by omega)]
  omega

lemma reflectHeader_eq(h:n<2^64):reflectHeader n=puthead 0xC0 0xF7 n:=by
 rw[←writeSliceHeader_eq h,reflectHeader,writeSliceHeader,intlen_eq_width]
 dsimp only
 rw[shortest_length,UInt8.ofNat_add,UInt8.ofNat_add]
 rfl

mutual

lemma encoded_eq:∀t:Tree,t.encoded.length<2^64→t.encoded=encode (t.item (·.toInt.natAbs))
 | .bytes b,h=>encodeBytes_eq ((le_encodeBytes b).trans_lt h)
 | .uint64 n,_=>by
  have hlen:=length_shortest_nonce n
  exact encodeBytes_eq (by omega)
 | .bigInt i,h=>encodeBytes_eq ((le_encodeBytes (shortest i)).trans_lt h)
 | .list xs,h=>by
  rw[encoded,length_append]at h
  rw[encoded,item,encode,writeSliceHeader_eq (by omega),encodeds_eq xs (by omega)]
 | .slice xs,h=>by
  rw[encoded,length_append]at h
  rw[encoded,item,encode,reflectHeader_eq (by omega),encodeds_eq xs (by omega)]

lemma encodeds_eq:∀xs:List Tree,(encodeds xs).length<2^64 →
 encodeds xs=encodeList (items (·.toInt.natAbs) xs)
 | [],_=>rfl
 | x::xs,h=>by
  rw[encodeds,length_append]at h
  rw[encodeds,items,encodeList,encoded_eq x (by omega),encodeds_eq xs (by omega)]

end

mutual

lemma writer_eq:∀(t:Tree) (w:EncBuf),t.writer w=.ok (w.writeItem (t.item BitVec.toNat))
 | .bytes _,_=>rfl
 | .uint64 n,w=>congrArg Except.ok (writeUint_eq n.isLt w)
 | .bigInt i,w=>writeBigInt_eq (Int.natCast_nonneg i) w
 | .list xs,w=>writeList_eq (writers_eq xs) w
 | .slice xs,w=>writeList_eq (writers_eq xs) w

lemma writers_eq:∀(xs:List Tree) (w:EncBuf),writers xs w=.ok (w.writeItems (items BitVec.toNat xs))
 | [],_=>rfl
 | x::xs,w=>by
  rw[writers,writer_eq x w]
  exact writers_eq xs _

end

mutual

lemma item_eq_iff:∀t:Tree,t.item (·.toInt.natAbs)=t.item BitVec.toNat↔t.Signed
 | .bytes b=>iff_of_true rfl trivial
 | .uint64 n=>by
  rw[item,item,Signed,←storedNonce_eq_iff,←BitVec.toNat_inj,toNat_storedNonce,Item.string.injEq]
  exact⟨fun h=>by rw[←value_shortest n.toInt.natAbs,h,value_shortest],fun h=>by rw[h]⟩
 | .bigInt i=>iff_of_true rfl trivial
 | .list xs=>by simpa[item,Signed]using items_eq_iff xs
 | .slice xs=>by simpa[item,Signed]using items_eq_iff xs

lemma items_eq_iff:∀xs:List Tree,items (·.toInt.natAbs) xs=items BitVec.toNat xs↔AllSigned xs
 | []=>iff_of_true rfl trivial
 | x::xs=>by simp[items,AllSigned,item_eq_iff x,items_eq_iff xs]

end

lemma encodeToBytes_eq_iff{t:Tree}(h:t.encoded.length<2^63):
 t.encodeToBytes=.ok (some t.encoded)↔t.Signed:=by
 have heq:=t.encoded_eq (by omega)
 have hwrite:t.encodeToBytes=.ok (some (encode (t.item BitVec.toNat))):=by
  rw[encodeToBytes,writer_eq,←toBytes_writeItem]
  rfl
 rw[hwrite,←item_eq_iff,Except.ok.injEq,some.injEq,heq]
 exact⟨fun h=>(BlockWireCanonicity.encode_inj (by rw[h,←heq];omega) h).symm,fun h=>by rw[h]⟩

end Tree

def rlpEncode (nonce:BitVec 64) (balance:ℕ) (root codeHash:Bytes):Bytes:=
 (Tree.list [.uint64 nonce,.bigInt balance,.bytes root,.bytes codeHash]).encoded

def accountType:GoType:=
 .struct (.cons "Nonce" (.uint .w64) (.cons "Balance" .bigInt
  (.cons "Root" (.byteArray 32) (.cons "CodeHash" .bytes .nil))))

structure ExtObject where
 nonce:BitVec 64
 balance:ℤ
 root:Bytes
 codeHash:Bytes

/-- `rlp.Decode` of an account; `none` is an error. Bytes behind the account are not looked at. -/
def decodeAccount (data:Bytes):Option ExtObject:=
 match decoder (data.length+1) accountType (newStream data) with
 | some (.ok (x:BitVec 64 × ℤ × List.Vector UInt8 32 × Bytes × Unit),_)=>
  some ⟨x.1,x.2.1,x.2.2.1.toList,x.2.2.2.1⟩
 | _=>none

structure StateObject where
 nonce:BitVec 64
 balance:ℤ
 codeHash:Bytes
 trie:Trie

def newStateObjectFromBytes (sha3:Bytes→Bytes) (st:Store) (data:Bytes):Option StateObject:=do
 let extobject ← decodeAccount data
 let trie ← Trie.new sha3 extobject.root st
 return ⟨extobject.nonce,extobject.balance,extobject.codeHash,trie⟩

variable {nonce:BitVec 64} {balance:ℕ} {root:List.Vector UInt8 32} {codeHash:Bytes}

lemma decodeAccount_rlpEncode(hsize:(rlpEncode nonce balance root.toList codeHash).length<2^63):
 decodeAccount (rlpEncode nonce balance root.toList codeHash) =
  some ⟨storedNonce nonce,balance,root.toList,codeHash⟩:=by
 let x:BitVec 64 × ℤ × List.Vector UInt8 32 × Bytes × Unit:=(storedNonce nonce,balance,root,codeHash,())
 have hencode:rlpEncode nonce balance root.toList codeHash=encode (toItem accountType x):=by
  rw[rlpEncode,Tree.encoded_eq _ (hsize.trans (by norm_num))]
  change _=encode (.list [.string (shortest (storedNonce nonce).toNat),
   .string (shortest (balance:ℤ).toNat),.string root.toList,.string codeHash])
  rw[toNat_storedNonce]
  rfl
 have hlong:root.toList≠[0]:=by
  intro hzero
  have hlen:=root.toList_length
  rw[hzero]at hlen
  exact absurd hlen (by decide)
 have hclean:Clean accountType x:=
  ⟨trivial,fun _=>id,trivial,fun _=>id,trivial,fun _=>hlong,trivial,fun _=>id,trivial⟩
 have hreads:=decoder_reads ((rlpEncode nonce balance root.toList codeHash).length+1)
  accountType x ⟨trivial,Int.natCast_nonneg _,trivial,trivial,trivial⟩ hclean
  (by rw[hencode];exact Nat.lt_succ_self _) (by rw[←hencode];omega)
 obtain⟨s',hdec,-⟩:=hreads (newStream (encode (toItem accountType x))) []
  (ready_newStream _) (append_nil _).symm (fits_nil _)
 rw[←hencode]at hdec
 rw[decodeAccount,hdec]

/-- The trie of the root opens and has that root. -/
def Opens (sha3:Bytes→Bytes) (st:Store) (root:Bytes):Prop:=
 root=Trie.emptyRoot sha3 ∨ root≠Trie.zeroHash ∧ ∃v,st.db root=some v ∧ v.length≠0

lemma new_iff_opens(sha3:Bytes→Bytes)(st:Store)(root:Bytes):
 (∃trie,Trie.new sha3 root st=some trie∧trie.hash sha3=some root)↔Opens sha3 st root:=by
 have hnil:Trie.hash sha3 ⟨.nil⟩=some (Trie.emptyRoot sha3):=rfl
 have hloaded:Trie.hash sha3 ⟨.hashNode root⟩=some root:=rfl
 unfold Trie.new Opens
 split
 ·rename_i hroot
  rw[or_iff_right hroot.2,and_iff_right hroot.1]
  cases st.db root with
  | none=>simp
  | some v=>by_cases hlen:v.length=0<;>simp_all
 rename_i hroot
 simp only[some.injEq,exists_eq_left',hnil]
 constructor
 ·exact fun h=>.inl h.symm
 rintro (h|h)
 ·exact h.symm
 exact (not_not.1 fun hne=>hroot ⟨h.1,Ne.symm hne⟩)

/-- An account is read back and a tree is written as the `rlp` package writes it exactly when
no `uint64` is above `2 ^ 63` and the account's trie opens. -/
theorem account_encoding_iff (sha3 : Bytes → Bytes) (st : Store) (t : Tree)
    (hsize : (rlpEncode nonce balance root.toList codeHash).length < 2 ^ 63)
    (ht : t.encoded.length < 2 ^ 63) :
    ((∃ trie, newStateObjectFromBytes sha3 st (rlpEncode nonce balance root.toList codeHash) =
        some ⟨nonce, balance, codeHash, trie⟩ ∧ trie.hash sha3 = some root.toList) ∧
      t.encodeToBytes = .ok (some t.encoded)) ↔
    (nonce.toNat ≤ 2 ^ 63 ∧ Opens sha3 st root.toList) ∧ t.Signed := by
 have hread:newStateObjectFromBytes sha3 st (rlpEncode nonce balance root.toList codeHash) =
  (Trie.new sha3 root.toList st).map (fun trie=>
   ⟨storedNonce nonce,balance,codeHash,trie⟩):=by
  rw[newStateObjectFromBytes,decodeAccount_rlpEncode hsize]
  cases hnew:Trie.new sha3 root.toList st<;>simp[hnew]
 rw[Tree.encodeToBytes_eq_iff ht,←storedNonce_eq_iff,←new_iff_opens,hread]
 refine and_congr_left fun _=>?_
 simp only[map_eq_some_iff,StateObject.mk.injEq,true_and]
 constructor
 · rintro⟨_,⟨trie,hopen,hnonce,rfl⟩,hhash⟩
   exact⟨hnonce,trie,hopen,hhash⟩
 rintro⟨hnonce,trie,hopen,hhash⟩
 exact⟨trie,⟨trie,hopen,hnonce,rfl⟩,hhash⟩

theorem account_encoding_fresh :
    (∃ trie, newStateObjectFromBytes (fun _ => replicate 32 1) ⟨fun _ => none, .new 0⟩
        (rlpEncode 5 7 (replicate 32 1) [9]) = some ⟨5, 7, [9], trie⟩ ∧
          trie.hash (fun _ => replicate 32 1) = some (replicate 32 1)) ∧
      (Tree.list [.uint64 3]).encodeToBytes = .ok (some (Tree.list [.uint64 3]).encoded) :=
 (@account_encoding_iff 5 7 ⟨replicate 32 1, rfl⟩ [9] _ _ _ (by decide) (by decide)).2
  ⟨⟨by decide, .inl rfl⟩, (by decide:3 ≤ 2 ^ 63), trivial⟩

theorem account_nonce_changed :
    (decodeAccount (rlpEncode 0x8000000000000001 0 (replicate 32 1) [])).map ExtObject.nonce =
      some 0x7fffffffffffffff := by
 have hread:=@decodeAccount_rlpEncode 0x8000000000000001 0 ⟨replicate 32 1,rfl⟩ [] (by decide)
 exact (congrArg (Option.map ExtObject.nonce) hread).trans (by decide)

end GoCoupe.AccountEncoding
