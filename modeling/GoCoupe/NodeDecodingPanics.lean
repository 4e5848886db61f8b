import GoCoupe.EmbeddedNodes

/-!
# Where decoding a node panics

The string `0x81` without its byte makes `readKind` index past the end of its input, and a key
string without nibbles makes `decodeShort` look for the last nibble of nothing. `Fatal` is
exact about both.
-/

namespace GoCoupe.NodeDecodingPanics
open HexPrefixKeys RlpRawSplitting TrieNodes EmbeddedNodes Option Nat

variable {ε α β:Type}

def Panics (x:Outcome ε α):Prop:=x.run=none

variable {f:α→Outcome ε β} {x:Outcome ε α}

lemma panics_bind:Panics (x>>=f)↔Panics x∨∃a,Ends x a∧Panics (f a):=by
 unfold Panics Ends
 rw[ExceptT.run_bind]
 rcases hx:x.run with _|(e|a)
 ·simp
 ·simp
 simp

@[simp] lemma not_panics_pure(a:α):¬Panics (pure a:Outcome ε α):=fun h=>nomatch h

@[simp] lemma not_panics_throw(e:ε):¬Panics (throw e:Outcome ε α):=fun h=>nomatch h

@[simp] lemma panics_crash:Panics (crash:Outcome ε α):=rfl

@[simp] lemma panics_map(f:α→β)(x:Outcome ε α):Panics (f <$> x)↔Panics x:=by
 rw[←bind_pure_comp,panics_bind]
 simp

@[simp] lemma panics_relabel(f:ε→ε')(x:Outcome ε α):
 Panics (relabel f x)↔Panics x:=by
 have hrun:(relabel f x).run=x.run.map (Except.mapError f):=rfl
 rw[Panics,hrun,map_eq_none_iff,Panics]

@[simp] lemma panics_wrapError(context:String)(x:Outcome DecodeError α):
 Panics (wrapError context x)↔Panics x:=panics_relabel _ x

lemma ends_relabel_iff{f:ε→ε'}:Ends (relabel f x) a↔Ends x a:=by
 refine⟨ends_relabel,fun h=>?_⟩
 have hrun:(relabel f x).run=x.run.map (Except.mapError f):=rfl
 rw[Ends,hrun,h]
 rfl

lemma Ends.not_panics(h:Ends x a):¬Panics x:=by
 rw[Panics,h]
 exact nofun

lemma bind_congr_ends(h:∀a,Ends x a→f a=g a):x>>=f = x>>=g:=by
 apply ExceptT.ext
 rw[ExceptT.run_bind,ExceptT.run_bind]
 rcases hx:x.run with _|(e|a)
 ·rfl
 ·rfl
 simp[h a hx]

lemma panics_readTag:Panics (readTag b tail)↔b=0x81∧tail=[]:=by
 have hb:b=0x81↔b.toNat=0x81:=UInt8.toNat_inj.symm
 have hsize:∀n,¬Panics (readSize tail n):=fun n=>by
  unfold readSize
  split_ifs<;>simp
 unfold readTag
 rw[hb]
 split
 ·simp
  omega
 split
 ·split
  ·cases tail with
   | nil=>
    simp
    omega
   | cons c tail=>by_cases hc:c.toNat<128<;>simp[hc]
  simp
  omega
 split
 ·simp[hsize]
  omega
 split
 ·simp
  omega
 simp[hsize]
 omega

variable {buf:Bytes}

lemma panics_readKind:Panics (readKind buf)↔buf=[0x81]:=by
 cases buf with
 | nil=>simp[readKind]
 | cons b tail=>
  have htail:∀a:Kind × ℕ × ℕ,¬Panics (if a.2.2>(b::tail).length-a.2.1 then
   throw .valueTooLarge else pure (a.1,a.2.1,a.2.2):Outcome RlpError _):=fun a=>by
   split<;>simp
  rw[readKind,panics_bind,panics_readTag,List.cons.injEq]
  refine⟨fun h=>h.resolve_right ?_,.inl⟩
  rintro⟨a,-,ha⟩
  exact htail a ha

lemma panics_split:Panics (split buf)↔buf=[0x81]:=by
 simp[split,panics_readKind]

lemma panics_splitString:Panics (splitString buf)↔buf=[0x81]:=by
 rw[splitString,panics_bind,panics_split]
 refine⟨fun h=>h.resolve_right ?_,.inl⟩
 rintro⟨⟨k,v,rest⟩,-,h⟩
 dsimp only at h
 split at h<;>simp at h

lemma panics_splitList:Panics (splitList buf)↔buf=[0x81]:=by
 rw[splitList,panics_bind,panics_split]
 refine⟨fun h=>h.resolve_right ?_,.inl⟩
 rintro⟨⟨k,v,rest⟩,-,h⟩
 dsimp only at h
 split at h<;>simp at h

/-- The last value of the sequence is cut off after the byte `0x81`. -/
inductive Cut:Bytes→Prop
 | lone:Cut [0x81]
 | next {buf val rest:Bytes} {k:Kind} (h:Ends (split buf) (k,val,rest))
  (hc:Cut rest):Cut buf

lemma not_cut_nil:¬Cut []:=by
 intro h
 cases h with
 | next h=>exact absurd (split_lt h) (not_lt_zero _)

lemma cut_iff:Cut buf↔buf=[0x81]∨∃a,Ends (split buf) a∧Cut a.2.2:=by
 constructor
 ·intro h
  cases h with
  | lone=>exact .inl rfl
  | next h hc=>exact .inr ⟨_,h,hc⟩
 rintro (rfl|⟨⟨k,v,rest⟩,h,hc⟩)
 ·exact .lone
 exact .next h hc

lemma not_cut_rest(hc:¬Cut buf)(h:Ends (split buf) (k,val,rest)):¬Cut rest:=fun hr=>hc (.next h hr)

lemma panics_countFrom(fuel:ℕ)(buf:Bytes)(i:ℕ)(hfuel:buf.length≤fuel):
 Panics (countValues.go fuel buf i)↔Cut buf:=by
 induction fuel generalizing buf i with
 | zero=>
  obtain rfl:=List.eq_nil_of_length_eq_zero (le_zero.mp hfuel)
  simp[countValues.go,not_cut_nil]
 | succ fuel ih=>
  cases buf with
  | nil=>simp[countValues.go,not_cut_nil]
  | cons b tail=>
   rw[countValues.go,panics_bind,panics_readKind,cut_iff]
   refine or_congr_right ⟨?_,?_⟩
   ·rintro⟨⟨k,ts,cs⟩,hk,h⟩
    have hs:Ends (split (b::tail))
     (k,((b::tail).drop ts).take cs,(b::tail).drop (ts+cs)):=by
     rw[Ends,split,ExceptT.run_bind,hk]
     rfl
    have hlt:=split_lt hs
    exact⟨_,hs,(ih _ (i+1) (Nat.lt_succ_iff.mp (Nat.lt_of_lt_of_le hlt hfuel))).mp h⟩
   rintro⟨⟨k,v,rest⟩,hs,hc⟩
   have hlt:=split_lt hs
   obtain⟨⟨k',ts,cs⟩,hk,hs⟩:=ends_bind hs
   cases ends_pure hs
   exact⟨_,hk,(ih _ (i+1) (by omega)).mpr hc⟩

lemma panics_elementCount:Panics (elementCount elems)↔Cut elems:=by
 rw[←panics_countFrom elems.length elems 0 le_rfl,elementCount,Panics,countValues,Panics]
 rcases (countValues.go elems.length elems 0).run with _|(e|c)
 ·simp[crash]
 ·simp
 simp

/-- The input starts with a list that is short enough for an embedded node. -/
def Embedded (buf:Bytes):Prop:=∃val rest,Ends (split buf) (.list,val,rest) ∧ buf.length-rest.length≤32

/-- The compact encodings of no nibbles at all. -/
def Keyless (kbuf:Bytes):Prop:=kbuf=[] ∨ ∃b,kbuf=[b] ∧ b.toNat<16

lemma keyless_iff:Keyless kbuf↔∀key,compactDecode kbuf=some key→key.getLast? = none:=by
 cases kbuf with
 | nil=>exact iff_of_true (.inl rfl) (fun _ h=>nomatch h)
 | cons b tail=>
  have hnib:nibbles (b::tail)=highNibble b::lowNibble b::nibbles tail:=rfl
  have hhigh:(highNibble b).val=b.toNat/16:=rfl
  have htail:nibbles tail=[]↔tail=[]:=by
   cases tail<;>simp[nibbles]
  have hkeyless:Keyless (b::tail)↔tail=[]∧b.toNat<16:=by
   simp[Keyless]
  have hlast:(∀key,compactDecode (b::tail)=some key→key.getLast? = none)↔
   compactDecode (b::tail)=some []:=by
   cases hd:compactDecode (b::tail) with
   | none=>
    rw[compactDecode,hnib]at hd
    dsimp only at hd
    split at hd<;>cases hd
   | some key=>simp
  rw[hkeyless,hlast,compactDecode,hnib]
  dsimp only
  rw[hhigh,←htail]
  by_cases h2:b.toNat/16≥2
  ·rw[if_pos h2]
   split<;>simp<;>omega
  rw[if_neg h2]
  split
  ·simp
   omega
  simp
  omega

variable {dec:Bytes→Outcome DecodeError Node}

variable {rest:Bytes} {is:List Nibble} {n:Nibble→Node}

lemma decodeRef_split{n:Node}(h:Ends (decodeRef dec buf) (n,rest)):
 ∃k v,Ends (split buf) (k,v,rest):=by
 obtain⟨⟨k,v,rest'⟩,hs,h⟩:=ends_bind h
 refine⟨k,v,?_⟩
 dsimp only at h
 split at h
 ·split at h
  ·exact absurd h not_ends_throw
  obtain⟨n',-,h⟩:=ends_bind h
  cases ends_pure h
  exact ends_relabel hs
 split at h
 ·cases ends_pure h
  exact ends_relabel hs
 split at h
 ·cases ends_pure h
  exact ends_relabel hs
 exact absurd h not_ends_throw

lemma panics_decodeRef(hc:¬Cut buf):Panics (decodeRef dec buf)↔Embedded buf∧Panics (dec buf):=by
 have hlone:¬Panics (split buf):=fun h=>hc (panics_split.mp h ▸ .lone)
 rw[decodeRef,panics_bind,panics_relabel]
 constructor
 ·rintro (h|⟨⟨k,v,rest⟩,hs,h⟩)
  ·exact absurd h hlone
  dsimp only at h
  split at h
  ·rename_i hk
   subst hk
   split at h
   ·simp at h
   rename_i hsize
   rw[panics_bind]at h
   exact⟨⟨v,rest,ends_relabel hs,not_lt.mp hsize⟩,h.resolve_right (by simp)⟩
  split_ifs at h<;>simp at h
 rintro⟨⟨v,rest,hs,hsize⟩,h⟩
 refine .inr ⟨_,ends_relabel_iff.mpr hs,?_⟩
 have hsmall:¬buf.length-rest.length>hashLen:=not_lt.mpr hsize
 dsimp only
 rw[if_pos rfl,if_neg hsmall,panics_bind]
 exact .inl h

lemma decodeChildren_not_cut(hc:¬Cut buf)
 (h:Ends (decodeChildren dec is n₀ buf) (n,rest)):¬Cut rest∧rest.length≤buf.length:=by
 induction is generalizing n₀ buf with
 | nil=>
  cases ends_pure h
  exact⟨hc,le_rfl⟩
 | cons i is ih=>
  obtain⟨⟨c,rest'⟩,hr,h⟩:=ends_bind h
  obtain⟨k,v,hs⟩:=decodeRef_split (ends_wrapError hr)
  have hlt:=split_lt hs
  obtain⟨hcut,hle⟩:=ih (not_cut_rest hc hs) h
  exact⟨hcut,by omega⟩

/-- The loop over the slots panics in the first slot that does. -/
lemma panics_decodeChildren(hc:¬Cut buf):Panics (decodeChildren dec is n buf)↔
  ∃js i ks n' buf',is=js++i::ks∧Ends (decodeChildren dec js n buf) (n',buf')∧
   Embedded buf'∧Panics (dec buf'):=by
 induction is generalizing n buf with
 | nil=>simp[decodeChildren]
 | cons i is ih=>
  rw[decodeChildren,panics_bind,panics_wrapError,panics_decodeRef hc]
  constructor
  ·rintro (⟨he,hp⟩|⟨⟨c,rest⟩,hr,h⟩)
   ·exact⟨[],i,is,n,buf,rfl,rfl,he,hp⟩
   obtain⟨k,v,hs⟩:=decodeRef_split (ends_wrapError hr)
   obtain⟨js,j,ks,n',buf',rfl,hjs,he,hp⟩:=(ih (not_cut_rest hc hs)).mp h
   refine⟨i::js,j,ks,n',buf',rfl,?_,he,hp⟩
   rw[Ends,decodeChildren,ExceptT.run_bind,hr]
   exact hjs
  rintro⟨js,j,ks,n',buf',his,hjs,he,hp⟩
  cases js with
  | nil=>
   cases ends_pure hjs
   exact .inl ⟨he,hp⟩
  | cons i' js=>
   obtain⟨rfl,rfl⟩:=List.cons.inj his
   obtain⟨⟨c,rest⟩,hr,hjs⟩:=ends_bind hjs
   obtain⟨k,v,hs⟩:=decodeRef_split (ends_wrapError hr)
   exact .inr ⟨_,hr,(ih (not_cut_rest hc hs)).mpr ⟨js,j,ks,n',buf',rfl,hjs,he,hp⟩⟩

lemma panics_decodeFull(hc:¬Cut buf):
 Panics (decodeFull dec buf)↔Panics (decodeChildren dec branchIndices (fun _=>.nil) buf):=by
 rw[decodeFull,panics_bind]
 refine⟨fun h=>h.resolve_right ?_,.inl⟩
 rintro⟨⟨n,rest⟩,hn,h⟩
 rw[panics_bind,panics_relabel]at h
 rcases h with h|⟨⟨v,rest'⟩,-,h⟩
 ·exact (decodeChildren_not_cut hc hn).1 (panics_splitString.mp h ▸ .lone)
 dsimp only at h
 split at h<;>simp at h

lemma splitString_split(h:Ends (splitString buf) (kbuf,rest)):∃k,Ends (split buf) (k,kbuf,rest):=by
 obtain⟨⟨k,v,rest'⟩,hs,h⟩:=ends_bind h
 dsimp only at h
 split at h
 ·exact absurd h not_ends_throw
 cases ends_pure h
 exact⟨k,hs⟩

lemma panics_decodeShort(hc:¬Cut buf):
 Panics (decodeShort dec buf)↔∃kbuf rest,Ends (splitString buf) (kbuf,rest)∧
   (Keyless kbuf∨∃key last,compactDecode kbuf=some key∧
    key.getLast? = some last∧last≠16∧Embedded rest∧Panics (dec rest)):=by
 have hlone:¬Panics (splitString buf):=fun h=>hc (panics_splitString.mp h ▸ .lone)
 rw[decodeShort,panics_bind,panics_relabel,or_iff_right hlone,Prod.exists]
 refine exists_congr fun kbuf=>exists_congr fun rest=>?_
 rw[ends_relabel_iff]
 refine and_congr_right fun hk=>?_
 obtain⟨k,hs⟩:=splitString_split hk
 have hrest:=not_cut_rest hc hs
 have hval:¬Panics (splitString rest):=fun h=>hrest (panics_splitString.mp h ▸ .lone)
 rw[keyless_iff]
 dsimp only
 cases hd:compactDecode kbuf with
 | none=>simp
 | some key=>
  cases hl:key.getLast? with
  | none=>simp[List.getLast?_eq_none_iff.mp hl]
  | some last=>
   have hne:key≠[]:=fun h=>by
    rw[h]at hl
    cases hl
   by_cases h16:last=16
   ·simp[hl,hne,h16,hval]
   simp[hl,hne,h16,panics_decodeRef hrest]

variable {dec':Bytes→Outcome DecodeError Node}

lemma decodeRef_congr(h:dec buf=dec' buf):decodeRef dec buf=decodeRef dec' buf:=by
 rw[decodeRef,decodeRef,h]

lemma decodeChildren_congr(h:∀b:Bytes,b.length≤L→dec b=dec' b)
 (is:List Nibble)(n:Nibble→Node)(hbuf:buf.length≤L):
 decodeChildren dec is n buf=decodeChildren dec' is n buf:=by
 induction is generalizing n buf with
 | nil=>rfl
 | cons i is ih=>
  rw[decodeChildren,decodeChildren,decodeRef_congr (h buf hbuf)]
  refine bind_congr_ends fun a ha=>?_
  obtain⟨k,v,hs⟩:=decodeRef_split (ends_wrapError ha)
  have hlt:=split_lt hs
  exact ih _ (by omega)

lemma decodeShort_congr(h:∀b:Bytes,b.length≤buf.length→dec b=dec' b):
 decodeShort dec buf=decodeShort dec' buf:=by
 rw[decodeShort,decodeShort]
 refine bind_congr_ends fun a ha=>?_
 have hlen:=splitString_ends (ends_relabel ha)
 dsimp only
 rw[decodeRef_congr (h a.2 (by omega))]

/-- More fuel than the input has bytes changes nothing. -/
lemma decodeNested_fuel(h:buf.length<fuel)(h':buf.length<fuel'):
 decodeNested fuel buf=decodeNested fuel' buf:=by
 induction fuel generalizing fuel' buf with
 | zero=>exact absurd h (not_lt_zero _)
 | succ fuel ih=>
  obtain⟨fuel',rfl⟩:∃f,fuel'=f+1:=⟨fuel'-1,by omega⟩
  rw[decodeNested,decodeNested]
  split
  ·rfl
  refine bind_congr_ends fun a ha=>?_
  obtain⟨ts,hsum,hts⟩:=split_ends (splitList_ends (ends_relabel ha))
  have hpos:=hts (by decide)
  have hdec:∀b:Bytes,b.length≤a.1.length →
   decodeNested fuel b=decodeNested fuel' b:=fun b hb=>ih (by omega) (by omega)
  refine bind_congr_ends fun c _=>?_
  rw[decodeShort_congr hdec,decodeFull,decodeFull,decodeChildren_congr hdec branchIndices _ le_rfl]

inductive Fatal:Bytes→Prop
 | lone:Fatal [0x81]
 | cut {buf elems rest:Bytes} (hs:Ends (splitList buf) (elems,rest)) (hc:Cut elems):Fatal buf
 | key {buf elems rest kbuf rest':Bytes} (hs:Ends (splitList buf) (elems,rest))
  (hn:Ends (elementCount elems) 2) (hk:Ends (splitString elems) (kbuf,rest'))
  (hkey:Keyless kbuf):Fatal buf
 | val {buf elems rest kbuf rest':Bytes} {key:List Nibble} {last:Nibble}
  (hs:Ends (splitList buf) (elems,rest)) (hn:Ends (elementCount elems) 2)
  (hk:Ends (splitString elems) (kbuf,rest')) (hkey:compactDecode kbuf=some key)
  (hlast:key.getLast? = some last) (hne:last≠16) (he:Embedded rest')
  (hf:Fatal rest'):Fatal buf
 | child {buf elems rest rest':Bytes} {js ks:List Nibble} {i:Nibble} {n:Nibble→Node}
  (hs:Ends (splitList buf) (elems,rest)) (hn:Ends (elementCount elems) 17)
  (hi:branchIndices=js++i::ks)
  (hjs:Ends (decodeChildren decodeNode js (fun _=>.nil) elems) (n,rest'))
  (he:Embedded rest') (hf:Fatal rest'):Fatal buf

lemma panics_decodeNested(fuel:ℕ)(buf:Bytes):Panics (decodeNested (fuel+1) buf)↔buf=[0x81]∨
  ∃elems rest,Ends (splitList buf) (elems,rest)∧(Cut elems∨
   Ends (elementCount elems) 2∧Panics (decodeShort (decodeNested fuel) elems)∨
   Ends (elementCount elems) 17∧Panics (decodeFull (decodeNested fuel) elems)):=by
 rw[decodeNested]
 split
 ·rename_i hnil
  obtain rfl:=List.eq_nil_of_length_eq_zero hnil
  refine iff_of_false (not_panics_throw _) ?_
  rintro (h|⟨elems,rest,hs,-⟩)
  ·cases h
  exact absurd (split_lt (splitList_ends hs)) (not_lt_zero _)
 rw[panics_bind,panics_relabel,panics_splitList]
 refine or_congr_right ⟨?_,?_⟩
 ·rintro⟨⟨elems,rest⟩,hs,h⟩
  refine⟨elems,rest,ends_relabel hs,?_⟩
  rw[panics_bind,panics_elementCount]at h
  refine h.imp_right ?_
  rintro⟨c,hc,h⟩
  split at h
  ·rename_i h2
   exact .inl ⟨h2▸hc,(panics_wrapError _ _).mp h⟩
  split at h
  ·rename_i h17
   exact .inr ⟨h17▸hc,(panics_wrapError _ _).mp h⟩
  simp at h
 rintro⟨elems,rest,hs,h⟩
 refine⟨_,ends_relabel_iff.mpr hs,?_⟩
 rw[panics_bind,panics_elementCount]
 refine h.imp_right ?_
 rintro (⟨hn,h⟩|⟨hn,h⟩)
 ·exact⟨2,hn,(panics_wrapError _ _).mpr h⟩
 exact⟨17,hn,(panics_wrapError _ _).mpr h⟩

lemma panics_decodeNested_iff(fuel:ℕ)(buf:Bytes)(hfuel:buf.length<fuel):
 Panics (decodeNested fuel buf)↔Fatal buf:=by
 induction fuel generalizing buf with
 | zero=>exact absurd hfuel (not_lt_zero _)
 | succ fuel ih=>
  have hshorter:∀elems rest,Ends (splitList buf) (elems,rest)→elems.length<fuel:=by
   intro elems rest hs
   obtain⟨ts,hsum,hts⟩:=split_ends (splitList_ends hs)
   have hpos:=hts (by decide)
   omega
  have hsame:∀elems js n,elems.length<fuel →
   decodeChildren (decodeNested fuel) js n elems=decodeChildren decodeNode js n elems:=
   fun elems js n hlt=>decodeChildren_congr
    (fun b hb=>decodeNested_fuel (by omega) (lt_succ_self _)) js n le_rfl
  rw[panics_decodeNested]
  constructor
  ·rintro (rfl|⟨elems,rest,hs,h⟩)
   ·exact .lone
   have hlt:=hshorter elems rest hs
   by_cases hc:Cut elems
   ·exact .cut hs hc
   rcases h.resolve_left hc with⟨hn,h⟩|⟨hn,h⟩
   ·obtain⟨kbuf,rest',hk,hkey|⟨key,last,hkey,hlast,hne,he,hp⟩⟩:=(panics_decodeShort hc).mp h
    ·exact .key hs hn hk hkey
    have hle:=splitString_ends hk
    exact .val hs hn hk hkey hlast hne he ((ih rest' (by omega)).mp hp)
   obtain⟨js,i,ks,n,rest',hi,hjs,he,hp⟩:=(panics_decodeChildren hc).mp ((panics_decodeFull hc).mp h)
   have hle:=(decodeChildren_not_cut hc hjs).2
   rw[hsame elems js _ hlt]at hjs
   exact .child hs hn hi hjs he ((ih rest' (by omega)).mp hp)
  have hcut:∀elems c,Ends (elementCount elems) c→¬Cut elems:=fun elems c hn hc=>
   Ends.not_panics hn (panics_elementCount.mpr hc)
  intro h
  cases h with
  | lone=>exact .inl rfl
  | cut hs hc=>exact .inr ⟨_,_,hs,.inl hc⟩
  | key hs hn hk hkey=>
   exact .inr ⟨_,_,hs,.inr (.inl ⟨hn,(panics_decodeShort (hcut _ _ hn)).mpr
    ⟨_,_,hk,.inl hkey⟩⟩)⟩
  | val hs hn hk hkey hlast hne he hf=>
   have hlt:=hshorter _ _ hs
   have hle:=splitString_ends hk
   exact .inr ⟨_,_,hs,.inr (.inl ⟨hn,(panics_decodeShort (hcut _ _ hn)).mpr
    ⟨_,_,hk,.inr ⟨_,_,hkey,hlast,hne,he,(ih _ (by omega)).mpr hf⟩⟩⟩)⟩
  | child hs hn hi hjs he hf=>
   have hlt:=hshorter _ _ hs
   have hc:=hcut _ _ hn
   have hle:=(decodeChildren_not_cut hc hjs).2
   rw[←hsame _ _ _ hlt]at hjs
   exact .inr ⟨_,_,hs,.inr (.inr ⟨hn,(panics_decodeFull hc).mpr
    ((panics_decodeChildren hc).mpr ⟨_,_,_,_,_,hi,hjs,he,(ih _ (by omega)).mpr hf⟩)⟩)⟩

/-- Decoding returns a node or an error exactly if it does not come to a panic. -/
theorem decodeNode_returns_iff (buf : Bytes) :
    (∃ r, (decodeNode buf).run = some r) ↔ ¬ Fatal buf := by
 rw[←panics_decodeNested_iff _ buf (lt_succ_self _),Panics,←decodeNode,
  ←isSome_iff_exists,←ne_none_iff_isSome]

/-- A short node with an empty key, one with a key of no nibbles, and half a string. -/
theorem decodeNode_panics :
    (decodeNode [0xc2, 0x80, 0x80]).run = none ∧ (decodeNode [0xc2, 0x00, 0x80]).run = none ∧
      (decodeNode [0x81]).run = none ∧ (decodeNode [0xc2, 0x05, 0x81]).run = none := by
 simp only[←isNone_iff_eq_none]
 decide +kernel

end GoCoupe.NodeDecodingPanics
