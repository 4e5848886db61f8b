import GoCoupe.BigEndianBytes
import GoCoupe.CommonTypes

/-!
# The RLP encoder

The output side of `rlp/encode.go`. An `encbuf` keeps the string data apart from the list
headers and is then laid out in one pass, which gives the recursive encoding of the value.
Values are trees of byte strings and lists.
-/

namespace GoCoupe.RlpEncoding
open BigEndianBytes List Nat

inductive Item where
 | string (b:Bytes)
 | list (items:List Item)

/-- `putint`: the shortest big-endian spelling, one byte for zero. -/
def putint (i:ℕ):Bytes:=if i<2^8 then fixed 1 i
 else if i<2^16 then fixed 2 i
 else if i<2^24 then fixed 3 i
 else if i<2^32 then fixed 4 i
 else if i<2^40 then fixed 5 i
 else if i<2^48 then fixed 6 i
 else if i<2^56 then fixed 7 i
 else fixed 8 i

/-- `intsize`: the number of shifts by eight bits until nothing is left, which for a
`uint64` is at most eight. -/
def intsize (i:ℕ):ℕ:=go 7 i 1
where
 go:ℕ→ℕ→ℕ→ℕ
  | 0, _, size=>size
  | fuel + 1, i, size=>if i/256 = 0 then size else go fuel (i/256) (size + 1)

def headsize (size:ℕ):ℕ:=if size<56 then 1 else 1+intsize size

def puthead (smalltag largetag:UInt8) (size:ℕ):Bytes:=if size<56 then [smalltag+UInt8.ofNat size]
 else (largetag+UInt8.ofNat (putint size).length)::putint size

structure ListHead where
 offset:ℕ
 size:ℕ
 deriving DecidableEq,Repr

def ListHead.encode (head:ListHead):Bytes:=puthead 0xC0 0xF7 head.size

structure EncBuf where
 str:Bytes
 lheads:List ListHead
 lhsize:ℕ

namespace EncBuf

def empty:EncBuf:=⟨[],[],0⟩

def size (w:EncBuf):ℕ:=w.str.length+w.lhsize

def encodeStringHeader (w:EncBuf) (size:ℕ):EncBuf:={w with str:=w.str++puthead 0x80 0xB7 size}

def encodeString (w:EncBuf) (b:Bytes):EncBuf:=
 match b with
 | [x]=>
  if x≤0x7F then {w with str:=w.str++[x]}
  else {w.encodeStringHeader 1 with str:=(w.encodeStringHeader 1).str++[x]}
 | b=>{w.encodeStringHeader b.length with str:=(w.encodeStringHeader b.length).str++b}

/-- Opens a list. Its header is addressed by its position. -/
def list (w:EncBuf):EncBuf × ℕ:=
 ({w with lheads:=w.lheads++[⟨w.str.length,w.lhsize⟩]},w.lheads.length)

def listEnd (w:EncBuf) (lh:ℕ):EncBuf:=
 match w.lheads[lh]? with
 | none=>w
 | some head=>
  let size:=w.size-head.offset-head.size
  {w with
   lheads:=w.lheads.set lh {head with size:=size}
   lhsize:=w.lhsize+headsize size}

mutual

def writeItem (w:EncBuf):Item→EncBuf
 | .string b=>w.encodeString b
 | .list items=>
  let (opened,lh):=w.list
  (opened.writeItems items).listEnd lh

def writeItems (w:EncBuf):List Item→EncBuf
 | []=>w
 | x::xs=>(w.writeItem x).writeItems xs

end

/-- The loop of `toWriter`: `str` is the string data from position `strpos` on. -/
def layOut (strpos:ℕ) (str:Bytes):List ListHead→Bytes
 | []=>str
 | head::heads=>
  str.take (head.offset-strpos)++head.encode ++ layOut head.offset (str.drop (head.offset-strpos)) heads

def toWriter (w:EncBuf):Bytes:=layOut 0 w.str w.lheads

end EncBuf

def rlpEncode (x:Item):Bytes:=(EncBuf.empty.writeItem x).toWriter

def encodeString (b:Bytes):Bytes:=
 match b with
 | [x]=>if x≤0x7F then [x] else puthead 0x80 0xB7 1++[x]
 | b=>puthead 0x80 0xB7 b.length++b

mutual

def encode:Item→Bytes
 | .string b=>encodeString b
 | .list items=>puthead 0xC0 0xF7 (encodeList items).length++encodeList items

def encodeList:List Item→Bytes
 | []=>[]
 | x::xs=>encode x++encodeList xs

end

lemma encodeString_write(w:EncBuf)(b:Bytes):
 w.encodeString b = {w with str:=w.str++encodeString b}:=by
 unfold EncBuf.encodeString encodeString
 split
 ·split<;>simp[EncBuf.encodeStringHeader]
 simp[EncBuf.encodeStringHeader]

lemma intsize_go_bounds(fuel i size:ℕ):
 size ≤ intsize.go fuel i size∧intsize.go fuel i size ≤ size+fuel:=by
 induction fuel generalizing i size with
 | zero=>simp[intsize.go]
 | succ fuel ih=>
  have h:=ih (i/256) (size+1)
  rw[intsize.go]
  split<;>omega

lemma intsize_go_le_iff(i size:ℕ)(h:k<fuel):intsize.go fuel i size ≤ size+k↔i<256^(k+1):=by
 induction fuel generalizing i size k with
 | zero=>omega
 | succ fuel ih=>
  rw[intsize.go]
  split
  ·rename_i hi
   have hle:256^1≤256^(k+1):=Nat.pow_le_pow_right (by omega) (by omega)
   constructor
   ·intro _
    omega
   intro _
   omega
  rename_i hi
  cases k with
  | zero=>
   have hb:=(intsize_go_bounds fuel (i/256) (size+1)).1
   constructor
   ·intro hle
    omega
   intro hlt
   omega
  | succ k=>
   rw[show size+(k+1)=size+1+k by omega,ih (i/256) (size+1) (by omega),
    div_lt_iff_lt_mul (by omega),←pow_succ]

lemma intsize_le_iff{w:ℕ}(i:ℕ)(h:1≤w)(h':w≤7):intsize i≤w↔i<256^w:=by
 obtain⟨k,rfl⟩:∃k,w=k+1:=⟨w-1,by omega⟩
 rw[intsize,add_comm k 1]
 rw[intsize_go_le_iff i 1 (by omega),add_comm]

lemma putint_length(i:ℕ):(putint i).length=intsize i:=by
 have hb:=intsize_go_bounds 7 i 1
 have h1:=intsize_le_iff i (w:=1) (by omega) (by omega)
 have h2:=intsize_le_iff i (w:=2) (by omega) (by omega)
 have h3:=intsize_le_iff i (w:=3) (by omega) (by omega)
 have h4:=intsize_le_iff i (w:=4) (by omega) (by omega)
 have h5:=intsize_le_iff i (w:=5) (by omega) (by omega)
 have h6:=intsize_le_iff i (w:=6) (by omega) (by omega)
 have h7:=intsize_le_iff i (w:=7) (by omega) (by omega)
 change 1 ≤ intsize i∧intsize i≤1+7 at hb
 norm_num at h1 h2 h3 h4 h5 h6 h7
 unfold putint
 norm_num
 split_ifs<;>simp only[fixed_length]<;>omega

lemma puthead_length(s l:UInt8)(n:ℕ):(puthead s l n).length=headsize n:=by
 unfold puthead headsize
 split
 ·rfl
 rw[length_cons,putint_length]
 omega

mutual

/-- The string data a value adds to the buffer. -/
def data:Item→Bytes
 | .string b=>encodeString b
 | .list items=>dataList items

def dataList:List Item→Bytes
 | []=>[]
 | x::xs=>data x++dataList xs

end

mutual

/-- The list headers a value adds when its string data starts at `base`. -/
def heads (base:ℕ):Item→List ListHead
 | .string _=>[]
 | .list items=>⟨base,(encodeList items).length⟩::headsList base items

def headsList (base:ℕ):List Item→List ListHead
 | []=>[]
 | x::xs=>heads base x++headsList (base+(data x).length) xs

end

mutual

def headBytes:Item→ℕ
 | .string _=>0
 | .list items=>headsize (encodeList items).length+headBytesList items

def headBytesList:List Item→ℕ
 | []=>0
 | x::xs=>headBytes x+headBytesList xs

end

mutual

lemma encode_length(x:Item):(encode x).length=(data x).length+headBytes x:=by
 cases x with
 | string b=>simp[encode,data,headBytes]
 | list items=>
  have h:=encodeList_length items
  simp only[encode,data,headBytes,length_append,puthead_length]
  omega

lemma encodeList_length(xs:List Item):
 (encodeList xs).length=(dataList xs).length+headBytesList xs:=by
 cases xs with
 | nil=>rfl
 | cons x xs=>
  have h:=encode_length x
  have h':=encodeList_length xs
  simp only[encodeList,dataList,headBytesList,length_append]
  omega

end

lemma encodeList_append(xs ys:List Item):encodeList (xs++ys)=encodeList xs++encodeList ys:=by
 induction xs with
 | nil=>rfl
 | cons x xs ih=>rw[cons_append,encodeList,encodeList,ih,append_assoc]

mutual

lemma writeItem_eq(w:EncBuf)(x:Item):
 w.writeItem x=⟨w.str++data x,w.lheads++heads w.str.length x,w.lhsize+headBytes x⟩:=by
 cases x with
 | string b=>simp[EncBuf.writeItem,encodeString_write,data,heads,headBytes]
 | list items=>
  have hsize:=encodeList_length items
  simp only[EncBuf.writeItem,EncBuf.list,writeItems_eq,EncBuf.listEnd,append_assoc,singleton_append]
  rw[getElem?_append_right le_rfl,Nat.sub_self,getElem?_cons_zero]
  have hlen:(w.str++dataList items).length+(w.lhsize+headBytesList items) -
   w.str.length-w.lhsize=(encodeList items).length:=by
   rw[length_append]
   omega
  simp only[EncBuf.size,hlen,data,heads,headBytes]
  rw[set_append_right _ _ le_rfl,Nat.sub_self,set_cons_zero]
  congr 1
  omega

lemma writeItems_eq(w:EncBuf)(xs:List Item):w.writeItems xs =
  ⟨w.str++dataList xs,w.lheads++headsList w.str.length xs,w.lhsize+headBytesList xs⟩:=by
 cases xs with
 | nil=>simp[EncBuf.writeItems,dataList,headsList,headBytesList]
 | cons x xs=>
  rw[EncBuf.writeItems,writeItem_eq,writeItems_eq]
  simp[dataList,headsList,headBytesList,add_assoc]

end

/-- Heads that start no earlier than `pos`. -/
def StartAfter (pos:ℕ) (hs:List ListHead):Prop:=∀h∈hs,pos≤h.offset

lemma layOut_skip(base:ℕ)(s rest:Bytes)(hs:List ListHead)(h:StartAfter (base+s.length) hs):
 EncBuf.layOut base (s++rest) hs=s++EncBuf.layOut (base+s.length) rest hs:=by
 cases hs with
 | nil=>rfl
 | cons head hs=>
  have hle:=h head (by simp)
  have hpos:s.length≤head.offset-base:=by omega
  have hsub:head.offset-base-s.length=head.offset-(base+s.length):=by omega
  simp only[EncBuf.layOut,take_append,drop_append,take_of_length_le hpos,
   drop_of_length_le hpos,hsub,nil_append,append_assoc]

mutual

lemma heads_startAfter(base:ℕ)(x:Item):StartAfter base (heads base x):=by
 cases x with
 | string b=>simp[heads,StartAfter]
 | list items=>
  intro h hh
  rw[heads]at hh
  rcases List.mem_cons.mp hh with rfl|hh
  ·exact le_rfl
  exact headsList_startAfter base items h hh

lemma headsList_startAfter(base:ℕ)(xs:List Item):StartAfter base (headsList base xs):=by
 cases xs with
 | nil=>simp[headsList,StartAfter]
 | cons x xs=>
  intro h hh
  rw[headsList]at hh
  rcases List.mem_append.mp hh with hh|hh
  ·exact heads_startAfter base x h hh
  exact (le_add_right _ _).trans (headsList_startAfter _ xs h hh)

end

mutual

lemma layOut_item(base:ℕ)(x:Item)(rest:Bytes)(more:List ListHead)
 (h:StartAfter (base+(data x).length) more):
 EncBuf.layOut base (data x++rest) (heads base x++more) =
  encode x++EncBuf.layOut (base+(data x).length) rest more:=by
 cases x with
 | string b=>
  simp only[data,heads,encode,nil_append]at h ⊢
  exact layOut_skip base _ rest more h
 | list items=>
  simp only[data,heads,encode]at h ⊢
  rw[cons_append,EncBuf.layOut]
  simp only[Nat.sub_self,take_zero,drop_zero,nil_append,ListHead.encode]
  rw[layOut_items base items rest more h,append_assoc]

lemma layOut_items(base:ℕ)(xs:List Item)(rest:Bytes)(more:List ListHead)
 (h:StartAfter (base+(dataList xs).length) more):
 EncBuf.layOut base (dataList xs++rest) (headsList base xs++more) =
  encodeList xs++EncBuf.layOut (base+(dataList xs).length) rest more:=by
 cases xs with
 | nil=>simp[dataList,headsList,encodeList]
 | cons x xs=>
  simp only[dataList,headsList,encodeList,append_assoc,length_append]at h ⊢
  have hmore:StartAfter (base+(data x).length+(dataList xs).length) more:=by
   rwa[add_assoc]
  have hnext:StartAfter (base+(data x).length)
   (headsList (base+(data x).length) xs++more):=by
   intro y hy
   rcases List.mem_append.mp hy with hy|hy
   ·exact headsList_startAfter _ xs y hy
   exact (le_add_right _ _).trans (hmore y hy)
  rw[layOut_item base x _ _ hnext,layOut_items _ xs rest more hmore,add_assoc]

end

lemma rlpEncode_eq(x:Item):rlpEncode x=encode x:=by
 have h:=layOut_item 0 x [] [] (by simp[StartAfter])
 rw[rlpEncode,writeItem_eq,EncBuf.toWriter]
 simpa[EncBuf.empty,EncBuf.layOut]using h

end GoCoupe.RlpEncoding
