import GoCoupe.RlpTypedValues
import GoCoupe.RlpValueReading

/-!
# The tree that a Go value is encoded as

The writers fill the buffer that encoding the tree `toItem` fills, and `toBytes` lays it out.
The only values refused are those with a negative big integer.
-/

namespace GoCoupe.RlpTypedEncoding

open BigEndianBytes RlpEncoding RlpRawSplitting RlpTypedValues RlpValueReading List

/-- Headers in order, between two positions of the string data. -/
def Between (lo hi:ℕ):List ListHead→Prop
 | []=>lo≤hi
 | h::hs=>lo≤h.offset ∧ Between h.offset hi hs

lemma Between.le(h:Between lo hi hs):lo≤hi:=by
 induction hs generalizing lo with
 | nil=>exact h
 | cons head hs ih=>exact h.1.trans (ih h.2)

lemma Between.of_le(h:Between lo hi hs)(hle:lo'≤lo):Between lo' hi hs:=by
 cases hs with
 | nil=>exact hle.trans h
 | cons head hs=>exact⟨hle.trans h.1,h.2⟩

lemma Between.append(h:Between lo mid hs)(h':Between mid hi hs'):Between lo hi (hs++hs'):=by
 induction hs generalizing lo with
 | nil=>exact h'.of_le h
 | cons head hs ih=>exact⟨h.1,ih h.2⟩

mutual

lemma between_heads(base:ℕ)(x:Item):Between base (base+(data x).length) (heads base x):=by
 cases x with
 | string b=>
  rw[heads]
  exact Nat.le_add_right _ _
 | list items=>
  rw[heads,data]
  exact⟨le_rfl,between_headsList base items⟩

lemma between_headsList(base:ℕ)(xs:List Item):
 Between base (base+(dataList xs).length) (headsList base xs):=by
 cases xs with
 | nil=>
  rw[headsList]
  exact Nat.le_add_right _ _
 | cons x xs=>
  rw[headsList,dataList,length_append,←Nat.add_assoc]
  exact (between_heads base x).append (between_headsList _ xs)

end

/-- The loop of `toBytes` fills its buffer with what `layOut` puts together. -/
lemma toBytesFrom_eq(hbetween:Between strpos str.length hs)
 (hsize:out.length+(EncBuf.layOut strpos (str.drop strpos) hs).length=size):
 toBytesFrom size str hs out strpos=some (out++EncBuf.layOut strpos (str.drop strpos) hs):=by
 induction hs generalizing out strpos with
 | nil=>
  rw[EncBuf.layOut]at hsize ⊢
  have htake:(str.drop strpos).take (size-out.length)=str.drop strpos:=take_of_length_le (by omega)
  have hfull:size-(out++str.drop strpos).length=0:=by
   rw[length_append]
   omega
  simp only[toBytesFrom,htake,hfull,replicate_zero,append_nil]
 | cons head hs ih=>
  obtain⟨hle,hrest⟩:=hbetween
  have hoff:=hrest.le
  rw[EncBuf.layOut]at hsize ⊢
  have hpiece:(str.take head.offset).drop strpos =
   (str.drop strpos).take (head.offset-strpos):=by rw[drop_take]
  have hlen:((str.drop strpos).take (head.offset-strpos)).length=head.offset-strpos:=by
   rw[length_take,length_drop]
   omega
  have hdrop:(str.drop strpos).drop (head.offset-strpos)=str.drop head.offset:=by
   rw[drop_drop,Nat.add_sub_cancel' hle]
  rw[hdrop,length_append,length_append,hlen]at hsize
  have htake:((str.drop strpos).take (head.offset-strpos)).take (size-out.length) =
   (str.drop strpos).take (head.offset-strpos):=take_of_length_le (by omega)
  simp only[toBytesFrom,hpiece,htake,hlen]
  rw[if_pos (by omega),Nat.add_sub_cancel' hle,ih hrest,hdrop]
  ·simp only[append_assoc]
  simp only[length_append,hlen]
  omega

lemma toBytes_writeItem(x:Item):toBytes (EncBuf.empty.writeItem x)=some (encode x):=by
 have hout:=rlpEncode_eq x
 rw[rlpEncode,EncBuf.toWriter]at hout
 rw[writeItem_eq]at hout ⊢
 simp only[EncBuf.empty,nil_append,length_nil,Nat.zero_add]at hout ⊢
 have hlay:toBytesFrom (encode x).length (data x) (heads 0 x) [] 0=_:=
  toBytesFrom_eq (by simpa using between_heads 0 x) (by simp[hout])
 rw[drop_zero,hout,nil_append]at hlay
 rw[toBytes,EncBuf.size]
 dsimp only
 rw[←encode_length]
 exact hlay

lemma ok_of_bind{ε α β:Type}{x:Except ε α}{f:α→Except ε β}{r:β}
 (h:(x>>=f)=.ok r):∃v,x=.ok v∧f v=.ok r:=by
 cases x with
 | error e=>cases h
 | ok v=>exact⟨v,rfl,h⟩

mutual

def toItem:(t:GoType)→t.Value→Item
 | .uint _,(x:BitVec _)=>.string (shortest x.toNat)
 | .bool,(b:Bool)=>.string (shortest b.toNat)
 | .bigInt,(i:ℤ)=>.string (shortest i.toNat)
 | .string,(b:Bytes)=>.string b
 | .bytes,(b:Bytes)=>.string b
 | .byteArray _,(b:List.Vector UInt8 _)=>.string b.toList
 | .slice t,(xs:List t.Value)=>.list (xs.map (toItem t))
 | .array _ t,(xs:List.Vector t.Value _)=>.list (xs.toList.map (toItem t))
 | .struct fs,(xs:fs.Values)=>.list (fieldItems fs xs)
 | .interface,(x:Item)=>x

def fieldItems:(fs:Fields)→fs.Values → List Item
 | .nil,_=>[]
 | .cons _ t fs,(xs:t.Value × fs.Values)=>toItem t xs.1::fieldItems fs xs.2

end

mutual

def NonNegative:(t:GoType)→t.Value→Prop
 | .uint _,_=>True
 | .bool,_=>True
 | .bigInt,(i:ℤ)=>0 ≤ i
 | .string,_=>True
 | .bytes,_=>True
 | .byteArray _,_=>True
 | .slice t,(xs:List t.Value)=>∀x∈xs,NonNegative t x
 | .array _ t,(xs:List.Vector t.Value _)=>∀x∈xs.toList,NonNegative t x
 | .struct fs,(xs:fs.Values)=>NonNegatives fs xs
 | .interface,_=>True

def NonNegatives:(fs:Fields)→fs.Values→Prop
 | .nil,_=>True
 | .cons _ t fs,(xs:t.Value × fs.Values)=>NonNegative t xs.1 ∧ NonNegatives fs xs.2

end

lemma one_le_width(h0:n≠0):1≤width n:=by
 by_contra hcon
 have hlt:=width_le_iff.1 (show width n≤0 by omega)
 omega

lemma putint_eq_shortest(h0:n≠0)(h:n<2^64):putint n=shortest n:=by
 have hlen:=shortest_length n
 have hwidth:width n≤8:=width_le_iff.2 (h.trans_le (by norm_num))
 have hpos:=one_le_width h0
 have hput:=putint_value (b:=shortest n) (by omega) (by omega) (.inr (shortest_head n))
 rwa[value_shortest]at hput

lemma writeUint_eq(hi:i<2^64)(w:EncBuf):writeUint i w=w.encodeString (shortest i):=by
 rw[encodeString_write,writeUint]
 split
 ·rename_i hzero
  rw[hzero]
  rfl
 rename_i hpos
 have hlen:=shortest_length i
 have hwidth:width i≤8:=width_le_iff.2 (hi.trans_le (by norm_num))
 have hwidth':=one_le_width hpos
 have hput:=putint_eq_shortest hpos hi
 have hval:=value_shortest i
 rcases header_string (b:=shortest i) (by rw[hlen];omega) with
  ⟨x,hx,hlt,henc,-⟩ | ⟨hc,henc,-⟩
 ·rw[hx]at hval
  have hi':x.toNat=i:=by simpa[value]using hval
  rw[if_pos (by omega),henc,←hi']
  simp[append]
 have hbig:¬i<128:=by
  intro hlt
  have hone:(shortest i).length=1:=by
   have:width i≤1:=width_le_iff.2 (by omega)
   omega
  obtain⟨c,hcv⟩:=length_eq_one_iff.1 hone
  have:=hc c hcv
  rw[hcv]at hval
  have:c.toNat=i:=by simpa[value]using hval
  omega
 rw[if_neg hbig,hput,henc,puthead,if_pos (by omega)]
 rfl

lemma writeBool_eq(b:Bool)(w:EncBuf):writeBool b w=w.encodeString (shortest b.toNat):=by
 rw[encodeString_write]
 cases b<;>rfl

lemma writeBigInt_eq(hi:0 ≤ i)(w:EncBuf):writeBigInt i w=.ok (w.encodeString (shortest i.toNat)):=by
 rw[writeBigInt,if_neg (by omega)]
 split
 ·rename_i hzero
  rw[hzero,encodeString_write]
  rfl
 rfl

lemma writeElements_eq{α:Type}{writer:α→EncBuf→Writing}{item:α→Item}
 {xs:List α}(h:∀x∈xs,∀w,writer x w=.ok (w.writeItem (item x)))(w:EncBuf):
 writeElements writer xs w=.ok (w.writeItems (xs.map item)):=by
 induction xs generalizing w with
 | nil=>rfl
 | cons x xs ih=>
  rw[writeElements,h x mem_cons_self]
  exact ih (fun y hy=>h y (mem_cons_of_mem x hy)) _

lemma writeList_eq(h:∀w,elements w=.ok (w.writeItems items))(w:EncBuf):
 writeList elements w=.ok (w.writeItem (.list items)):=by
 rw[writeList,EncBuf.writeItem]
 dsimp only
 rw[h]
 rfl

lemma bits_le(w:Width):2^w.bits≤2^64:=by cases w<;>decide

mutual

/-- The writers write the tree of a value. -/
lemma writer_eq:(t:GoType)→(x:t.Value)→NonNegative t x→(w:EncBuf) →
 writer t x w=.ok (w.writeItem (toItem t x))
 | .uint _,(x:BitVec _),_,w=>
  congrArg Except.ok (writeUint_eq (x.isLt.trans_le (bits_le _)) w)
 | .bool,(b:Bool),_,w=>congrArg Except.ok (writeBool_eq b w)
 | .bigInt,(_:ℤ),h,w=>writeBigInt_eq h w
 | .string,_,_,_=>rfl
 | .bytes,_,_,_=>rfl
 | .byteArray _,_,_,_=>rfl
 | .slice t,(_:List t.Value),h,w=>
  writeList_eq (writeElements_eq fun x hx=>writer_eq t x (h x hx)) w
 | .array _ t,(_:List.Vector t.Value _),h,w=>
  writeList_eq (writeElements_eq fun x hx=>writer_eq t x (h x hx)) w
 | .struct fs,(xs:fs.Values),h,w=>writeList_eq (fieldsWriter_eq fs xs h) w
 | .interface,_,_,_=>rfl

lemma fieldsWriter_eq:(fs:Fields)→(xs:fs.Values)→NonNegatives fs xs→(w:EncBuf) →
 fieldsWriter fs xs w=.ok (w.writeItems (fieldItems fs xs))
 | .nil,_,_,_=>rfl
 | .cons _ t fs,(x,xs),h,w=>by
  rw[fieldsWriter,writer_eq t x h.1]
  exact fieldsWriter_eq fs xs h.2 _

end

lemma encodeToBytes_eq{t:GoType}{x:t.Value}(h:NonNegative t x):
 encodeToBytes t x=.ok (some (encode (toItem t x))):=by
 rw[encodeToBytes,writer_eq t x h,←toBytes_writeItem]
 rfl

end GoCoupe.RlpTypedEncoding
