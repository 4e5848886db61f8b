import GoCoupe.RlpTypedEncoding

/-!
# The three outputs of the encoder

`toBytes`, `toWriter` and the reader that `EncodeToReader` returns all deliver the recursive
encoding of the value, the reader in pieces of whatever lengths its caller asks for.
-/

namespace GoCoupe.EncodedOutput
open RlpEncoding RlpTypedValues RlpTypedEncoding List Nat

/-- `buf` is nil at the end, and `piece` is what is left of the last piece. -/
structure EncReader where
 buf:Option EncBuf
 lhpos:ℕ
 strpos:ℕ
 piece:Option Bytes

namespace EncReader

def next (r:EncReader):Option Bytes × EncReader:=
 match r.buf,r.piece with
 | none,_=>(none,r)
 | some _,some p=>(some p,r)
 | some w,none=>
  match w.lheads[r.lhpos]? with
  | some head=>
   if head.offset-r.strpos>0 then
    (some ((w.str.take head.offset).drop r.strpos),{r with strpos:=r.strpos+(head.offset-r.strpos)})
   else (some head.encode,{r with lhpos:=r.lhpos+1})
  | none=>
   if r.strpos<w.str.length then
    (some (w.str.drop r.strpos),{r with strpos:=w.str.length})
   else (none,r)

/-- The loop of `Read`: `out` has been copied into the buffer of `len` bytes so far. The flag is
`io.EOF`. -/
def readFrom (len:ℕ):ℕ→EncReader→Bytes→Option (Bytes × Bool × EncReader)
 | 0,_,_=>none
 | fuel+1,r,out=>
  match r.next with
  | (none,r)=>some (out,true,{r with buf:=none,piece:=none})
  | (some p,r)=>
   let nn:=min (len-out.length) p.length
   if nn<p.length then some (out++p.take nn,false,{r with piece:=some (p.drop nn)})
   else readFrom len fuel {r with piece:=none} (out++p.take nn)

/-- There are no more pieces than bytes. -/
def read (r:EncReader) (len:ℕ):Option (Bytes × Bool × EncReader):=
 readFrom len (r.buf.elim 0 EncBuf.size+1) r []

def readAll:List ℕ→EncReader→Option (List (Bytes × Bool))
 | [],_=>some []
 | len::lens,r=>
  match r.read len with
  | none=>none
  | some (b,eof,r)=>(readAll lens r).map ((b,eof) :: ·)

end EncReader

def encodeToReader (t:GoType) (x:t.Value):Except EncodeError (ℕ × EncReader):=do
 let w ← writer t x .empty
 return (w.size,⟨some w,0,0,none⟩)

/-- What a reader of `t` is to return for buffers of the given lengths: the next bytes, and whether
there are no more. -/
def pieces:Bytes→List ℕ→List (Bytes × Bool)
 | _,[]=>[]
 | t,len::lens=>(t.take len,decide (t.length≤len))::pieces (t.drop len) lens

/-- The bytes `t` are still to be delivered. -/
def Ahead (r:EncReader) (t:Bytes):Prop:=
 match r.buf with
 | none=>t=[]
 | some w=>Between r.strpos w.str.length (w.lheads.drop r.lhpos) ∧ r.piece≠some [] ∧
  t.length≤w.size ∧ t=r.piece.getD [] ++
   EncBuf.layOut r.strpos (w.str.drop r.strpos) (w.lheads.drop r.lhpos)

variable {r:EncReader} {t out:Bytes} {w:EncBuf} {lhpos strpos:ℕ}

lemma ahead_behind{p:Bytes}(hb:Between strpos w.str.length (w.lheads.drop lhpos))
 (hsize:(p++EncBuf.layOut strpos (w.str.drop strpos) (w.lheads.drop lhpos)).length≤w.size)
 (n:ℕ):Ahead ⟨some w,lhpos,strpos,if n<p.length then some (p.drop n) else none⟩
  (p.drop n++EncBuf.layOut strpos (w.str.drop strpos) (w.lheads.drop lhpos)):=by
 rw[length_append]at hsize
 refine⟨hb,?_,by rw[length_append,length_drop];omega,?_⟩
 ·split
  ·next h=>simpa using h
  simp
 dsimp only
 split
 ·rfl
 next h=>rw[drop_of_length_le (not_lt.1 h)];rfl

/-- A piece is not empty, and as much of it as is not copied stays ahead. -/
lemma next_spec(h:Ahead r t):t=[]∧r.next=(none,r)∨∃p r' t',t=p++t'∧p≠[]∧r.next=(some p,r')∧
 ∀n,Ahead {r' with piece:=if n<p.length then some (p.drop n) else none} (p.drop n++t'):=by
 obtain⟨_|w,lhpos,strpos,_|p⟩:=r
 ·exact .inl ⟨h,rfl⟩
 ·exact .inl ⟨h,rfl⟩
 ·obtain⟨hb,-,hsize,rfl⟩:=h
  dsimp only[EncReader.next,Option.getD_none,nil_append]at hb hsize ⊢
  have hbehind:=@ahead_behind w
  rw[←head?_drop]
  cases hs:w.lheads.drop lhpos with
  | nil=>
   rw[hs,EncBuf.layOut]at hsize
   by_cases hstr:strpos<w.str.length
   ·specialize @hbehind lhpos w.str.length (w.str.drop strpos)
    rw[hs,EncBuf.layOut,drop_length,append_nil]at hbehind
    exact .inr ⟨w.str.drop strpos,_,[],(append_nil _).symm,by simpa using hstr,
     if_pos hstr,hbehind le_rfl hsize⟩
   exact .inl ⟨drop_of_length_le (not_lt.1 hstr),if_neg hstr⟩
  | cons head hs'=>
   have htail:w.lheads.drop (lhpos+1)=hs':=by rw[←tail_drop,hs];rfl
   rw[hs]at hb hsize
   obtain⟨hle,hb⟩:=hb
   have hadd:=Nat.add_sub_cancel' hle
   by_cases hstr:head.offset-strpos>0
   ·specialize @hbehind lhpos head.offset ((w.str.take head.offset).drop strpos)
    have hlay:EncBuf.layOut strpos (w.str.drop strpos) (head::hs') =
     (w.str.take head.offset).drop strpos ++
      EncBuf.layOut head.offset (w.str.drop head.offset) (head::hs'):=by
     rw[EncBuf.layOut,EncBuf.layOut,drop_drop,hadd,Nat.sub_self,drop_take]
     simp
    rw[hlay]at hsize ⊢
    rw[hs]at hbehind
    refine .inr ⟨_,_,_,rfl,?_,if_pos hstr,by rw[hadd];exact hbehind ⟨le_rfl,hb⟩ hsize⟩
    refine ne_nil_of_length_pos ?_
    have:=hb.le
    rw[length_drop,length_take]
    omega
   obtain rfl:strpos=head.offset:=by omega
   specialize @hbehind (lhpos+1) head.offset head.encode
   rw[htail]at hbehind
   rw[EncBuf.layOut,Nat.sub_self,take_zero,nil_append,drop_zero]at hsize ⊢
   refine .inr ⟨_,_,_,rfl,?_,if_neg hstr,hbehind hb hsize⟩
   refine ne_nil_of_length_pos ?_
   rw[ListHead.encode,puthead_length,headsize]
   split<;>omega
 obtain⟨hb,hpiece,hsize,rfl⟩:=h
 exact .inr ⟨p,_,_,rfl,fun hp=>hpiece (hp▸rfl),rfl,ahead_behind hb hsize⟩

lemma readFrom_eq{len fuel:ℕ}(h:Ahead r t)(hfuel:t.length<fuel)(hout:out.length≤len):
 ∃r',EncReader.readFrom len fuel r out =
  some (out++t.take (len-out.length),decide (t.length≤len-out.length),r')∧
  Ahead r' (t.drop (len-out.length)):=by
 induction fuel generalizing r t out with
 | zero=>omega
 | succ fuel ih=>
  rw[EncReader.readFrom]
  rcases next_spec h with⟨rfl,hn⟩|⟨p,r',t',rfl,hp,hn,hahead⟩
  ·rw[hn]
   exact⟨{r with buf:=none,piece:=none},by simp,drop_nil⟩
  have hpos:=length_pos_of_ne_nil hp
  rw[length_append]at hfuel
  rw[hn,length_append,take_append,drop_append]
  dsimp only
  specialize hahead (len-out.length)
  by_cases hroom:len-out.length<p.length
  ·rw[if_pos hroom]at hahead
   rw[Nat.min_eq_left hroom.le,if_pos hroom,Nat.sub_eq_zero_of_le hroom.le]
   refine⟨_,?_,by simpa using hahead⟩
   simp
   omega
  rw[if_neg hroom]at hahead
  rw[min_eq_right (not_lt.1 hroom),if_neg (lt_irrefl _),take_length]
  have hdrop:=drop_of_length_le (not_lt.1 hroom)
  rw[hdrop]at hahead
  obtain⟨r'',hr,hahead'⟩:=@ih _ t' (out++p) hahead (by omega)
   (by rw[length_append];omega)
  rw[length_append,←Nat.sub_sub]at hr hahead'
  refine⟨r'',?_,by simpa[hdrop]using hahead'⟩
  rw[hr,take_of_length_le (not_lt.1 hroom),append_assoc]
  simp
  omega

lemma read_eq(h:Ahead r t)(len:ℕ):
 ∃r',r.read len=some (t.take len,decide (t.length≤len),r')∧Ahead r' (t.drop len):=by
 refine @readFrom_eq r t [] len _ h (lt_succ_of_le ?_) (zero_le _)
 obtain⟨_|w,lhpos,strpos,piece⟩:=r
 ·exact le_of_eq (congrArg List.length h)
 exact h.2.2.1

lemma readAll_eq(h:Ahead r t)(lens:List ℕ):r.readAll lens=some (pieces t lens):=by
 induction lens generalizing r t with
 | nil=>rfl
 | cons len lens ih=>
  obtain⟨r',hr,hahead⟩:=read_eq h len
  rw[EncReader.readAll,hr]
  dsimp only
  rw[ih hahead]
  rfl

variable {w':EncBuf}

lemma accepted_elements{α:Type}{writer:α→EncBuf→Writing}{xs:List α}
 (h:writeElements writer xs w=.ok w'):∀x∈xs,∃v v',writer x v=.ok v':=by
 induction xs generalizing w with
 | nil=>nofun
 | cons y xs ih=>
  obtain⟨v,hy,h⟩:=ok_of_bind h
  exact forall_mem_cons.2 ⟨⟨w,v,hy⟩,ih h⟩

mutual

/-- Only negative big integers are refused. -/
lemma nonNegative_of_writer:(t:GoType)→(x:t.Value)→(w w':EncBuf) →
 writer t x w=.ok w'→NonNegative t x
 | .bigInt,(i:ℤ),w,w',h=>by
  by_contra hneg
  rw[writer,writeBigInt,if_pos (not_le.1 hneg)]at h
  cases h
 | .slice t,(xs:List t.Value),_,_,h=>fun x hx=>by
  obtain⟨v,h,-⟩:=ok_of_bind h
  obtain⟨u,u',h⟩:=accepted_elements h x hx
  exact nonNegative_of_writer t x u u' h
 | .array _ t,(xs:List.Vector t.Value _),_,_,h=>fun x hx=>by
  obtain⟨v,h,-⟩:=ok_of_bind h
  obtain⟨u,u',h⟩:=accepted_elements h x hx
  exact nonNegative_of_writer t x u u' h
 | .struct fs,(xs:fs.Values),_,_,h=>by
  obtain⟨v,h,-⟩:=ok_of_bind h
  exact nonNegatives_of_writer fs xs _ v h
 | .uint _,_,_,_,_ | .bool,_,_,_,_ | .string,_,_,_,_ | .bytes,_,_,_,_ | .byteArray _,_,_,_,_
 | .interface,_,_,_,_=>trivial

lemma nonNegatives_of_writer:(fs:Fields)→(xs:fs.Values)→(w w':EncBuf) →
 fieldsWriter fs xs w=.ok w'→NonNegatives fs xs
 | .nil,_,_,_,_=>trivial
 | .cons _ t fs,(x,xs),w,w',h=>by
  obtain⟨v,hx,h⟩:=ok_of_bind h
  exact⟨nonNegative_of_writer t x w v hx,nonNegatives_of_writer fs xs v w' h⟩

end

/-- Whatever value the writers accept, the three outputs are the recursive encoding of its tree. -/
theorem outputs_agree {t : GoType} {x : t.Value} {w : EncBuf} (h : writer t x .empty = .ok w) :
    toBytes w = some (encode (toItem t x)) ∧ w.toWriter = encode (toItem t x) ∧
    ∃ r, encodeToReader t x = .ok ((encode (toItem t x)).length, r) ∧
      ∀ lens, r.readAll lens = some (pieces (encode (toItem t x)) lens) := by
 have hw:=writer_eq t x (nonNegative_of_writer t x _ w h) .empty
 obtain rfl:w=_:=Except.ok.inj (h.symm.trans hw)
 have hout:EncBuf.toWriter _=_:=rlpEncode_eq (toItem t x)
 have hsize:(EncBuf.empty.writeItem (toItem t x)).size=(encode (toItem t x)).length:=by
  rw[writeItem_eq,encode_length]
  simp[EncBuf.size,EncBuf.empty]
 have hb:=between_heads 0 (toItem t x)
 rw[zero_add] at hb
 refine⟨toBytes_writeItem _,hout,⟨some _,0,0,none⟩,by rw[encodeToReader,h,←hsize]; rfl,?_⟩
 refine readAll_eq ⟨?_,Option.some_ne_none _ ∘ Eq.symm,hsize.ge,hout.symm⟩
 rw[writeItem_eq]
 exact hb

def sampleItem:Item:=.list [.list [],.string [5]]

theorem outputs_agree_sample : ∃ r, encodeToReader .interface sampleItem = .ok (3, r) ∧
    r.readAll [1, 0, 1, 4, 2] =
      some [([0xC2], false), ([], false), ([0xC0], false), ([5], true), ([], true)] := by
 obtain⟨-,-,r,hr,hread⟩:=outputs_agree (t := .interface) (x:=sampleItem) rfl
 exact⟨r,hr,hread [1,0,1,4,2]⟩

end GoCoupe.EncodedOutput
