import GoCoupe.TrieHashing

/-!
# The tree of a mapping

A mapping from byte keys to values has one canonical tree, whose words are its hex keys, and
updates of the mapping are insertions and deletions.
-/

namespace GoCoupe.TrieMappings
open PatriciaTrees HexPrefixKeys TrieNodeCodec TrieRefinement List Function

abbrev Mapping:=Bytes→Option Bytes

/-- `Update`, for which an empty value deletes. -/
def Mapping.write (m:Mapping) (k v:Bytes):Mapping:=Function.update m k (if v=[] then none else some v)

def Mapping.erase (m:Mapping) (k:Bytes):Mapping:=Function.update m k none

lemma nibbles_cons(b:UInt8)(k:Bytes):nibbles (b::k)=highNibble b::lowNibble b::nibbles k:=rfl

lemma nibbles_length(k:Bytes):(nibbles k).length=2*k.length:=by
 induction k with
 | nil=>rfl
 | cons b k ih=>
  rw[nibbles_cons,length_cons,length_cons,length_cons,ih]
  omega

variable {k a b v:Bytes} {m:Mapping} {t:HexTree} {cs:Nibble→HexTree}

lemma nibbles_lt(h:n∈nibbles k):n.val<16:=by
 induction k with
 | nil=>cases h
 | cons b k ih=>
  have hb:=b.toNat_lt
  rw[nibbles_cons,mem_cons,mem_cons]at h
  rcases h with rfl|rfl|h
  ·simp only[highNibble]
   omega
  ·simp only[lowNibble]
   omega
  exact ih h

lemma terminator_notMem(k:Bytes):16∉nibbles k:=fun h=>absurd (nibbles_lt h) (by decide)

lemma byte_of_nibbles{b c:UInt8}(hh:highNibble b=highNibble c)(hl:lowNibble b=lowNibble c):b=c:=by
 have h1:=congrArg Fin.val hh
 have h2:=congrArg Fin.val hl
 simp only[highNibble,lowNibble]at h1 h2
 apply UInt8.toNat_inj.mp
 omega

lemma prefix_of_nibbles(h:nibbles a <+: nibbles b):a <+: b:=by
 induction a generalizing b with
 | nil=>exact nil_prefix
 | cons x a ih=>
  cases b with
  | nil=>
   have:=h.length_le
   simp[nibbles_length]at this
  | cons y b=>
   rw[nibbles_cons,nibbles_cons,cons_prefix_cons,cons_prefix_cons]at h
   rw[byte_of_nibbles h.1 h.2.1,cons_prefix_cons]
   exact⟨rfl,ih h.2.2⟩

lemma dropLast_hexKey(k:Bytes):(compactHexDecode k).dropLast=nibbles k:=dropLast_concat

/-- The nibbles of a key begin a hex key only if the key begins the other key. -/
lemma prefix_of_hexKey(h:nibbles a <+: compactHexDecode b):a <+: b:=by
 refine prefix_of_nibbles ((List.prefix_concat_iff.mp h).resolve_left fun he=>?_)
 have:(16:Nibble)∈nibbles a:=by
  rw[he]
  simp
 exact absurd (nibbles_lt this) (by decide)

lemma compactHexDecode_injective(h:compactHexDecode a=compactHexDecode b):a=b:=by
 have hn:nibbles a=nibbles b:=by
  rw[←dropLast_hexKey,h,dropLast_hexKey]
 have hp:=prefix_of_nibbles (hn▸prefix_rfl:nibbles a <+: nibbles b)
 refine hp.eq_of_length ?_
 have:=congrArg List.length hn
 rw[nibbles_length,nibbles_length]at this
 omega

lemma compactHexDecode_ne_nil(k:Bytes):compactHexDecode k≠[]:=by
 simp[compactHexDecode]

structure Represents (t:HexTree) (m:Mapping):Prop where
 normal:Tree.Normal t
 lookup:∀k,t.lookup (compactHexDecode k)=m k
 hex:∀l v,t.lookup l=some v→∃k,l=compactHexDecode k

lemma Represents.of_lookup(h:Represents t m)(hl:t.lookup l=some v):
 ∃k,l=compactHexDecode k∧m k=some v:=by
 obtain⟨k,rfl⟩:=h.hex l v hl
 exact⟨k,rfl,(h.lookup k).symm.trans hl⟩

lemma Represents.eq(h:Represents t m)(h':Represents t' m):t=t':=by
 refine h.normal.ext h'.normal (funext fun l=>?_)
 cases hl:t.lookup l with
 | some v=>
  obtain⟨k,rfl,hk⟩:=h.of_lookup hl
  rw[h'.lookup,hk]
 | none=>
  cases hl':t'.lookup l with
  | none=>rfl
  | some v=>
   obtain⟨k,rfl,hk⟩:=h'.of_lookup hl'
   rw[h.lookup,hk]at hl
   cases hl

lemma Represents.mapping_eq(h:Represents t m)(h':Represents t m'):m=m':=
 funext fun k=>(h.lookup k).symm.trans (h'.lookup k)

lemma represents_empty:Represents .empty (fun _=>none) where
 normal:=Tree.normal_empty
 lookup k:=Tree.lookup_empty _
 hex l v h:=by
  rw[Tree.lookup_empty]at h
  cases h

structure HexWord (l:List Nibble):Prop where
 terminated:l.getLast? = some 16
 inner:∀n∈l.dropLast,n.val<16
 length:l.length<2^63

lemma HexWord.of_append{p l:List Nibble}(h:HexWord (p++l))(hl:l≠[]):
 HexWord l∧(∀n∈p,n.val<16)∧p.length<2^63:=by
 have hin:=h.inner
 have hlen:=h.length
 rw[dropLast_append_of_ne_nil hl]at hin
 rw[length_append]at hlen
 refine⟨⟨?_,fun n hn=>hin n (mem_append_right p hn),by omega⟩,
  fun n hn=>hin n (mem_append_left _ hn),by omega⟩
 have hterm:=h.terminated
 rwa[getLast?_append_of_ne_nil p hl]at hterm

lemma hexWord_compactHexDecode(h:k.length<2^62):HexWord (compactHexDecode k) where
 terminated:=by simp[compactHexDecode]
 inner n hn:=nibbles_lt (dropLast_hexKey k▸hn)
 length:=by
  rw[compactHexDecode,length_append,nibbles_length,length_singleton]
  omega

/-- The words of a tree are hex keys and lead to storable values. -/
def WellWorded (t:HexTree):Prop:=∀l v,t.lookup l=some v→HexWord l ∧ v≠[] ∧ v.length<2^62

lemma WellWorded.edge{p:List Nibble}(h:WellWorded (.edge p (.branch cs))):
 WellWorded (.branch cs):=by
 intro l v hl
 obtain⟨hw,hv⟩:=h (p++l) v (by simpa using hl)
 refine⟨(hw.of_append ?_).1,hv⟩
 rintro rfl
 cases hl

lemma WellWorded.child{i:Nibble}(h:WellWorded (.branch cs))(hi:i≠16):WellWorded (cs i):=by
 intro l v hl
 obtain⟨hw,hv⟩:=h (i::l) v hl
 refine⟨(HexWord.of_append (p:=[i]) hw ?_).1,hv⟩
 rintro rfl
 exact hi (Option.some.inj hw.terminated)

lemma WellWorded.last(h:WellWorded (.branch cs))(hn:Tree.Normal (cs 16)):
 cs 16=.empty∨∃v:Bytes,v≠[]∧v.length<2^62∧cs 16=.leaf v:=by
 by_cases he:cs 16=.empty
 ·exact .inl he
 obtain⟨l,v,hl⟩:=(hn he).exists_key
 obtain⟨hw,hv,hvl⟩:=h (16::l) v hl
 by_cases hnil:l=[]
 ·subst hnil
  exact .inr ⟨v,hv,hvl,(hn he).lookup_nil hl⟩
 have:=(HexWord.of_append (p:=[16]) hw hnil).2.1 16 (by simp)
 exact absurd this (by decide)

lemma shaped_of_wellWorded(hc:Tree.Canonical t):WellWorded t → Shaped t:=by
 induction hc with
 | leaf v=>
  intro h
  have:=(h [] v rfl).1.terminated
  cases this
 | @edgeLeaf p hp v=>
  intro h
  obtain⟨hw,hv,hvl⟩:=h p v (by simp[Tree.lookup_edge_leaf])
  exact .value ⟨hp,hw.inner⟩ hw.terminated hw.length hvl
 | @edgeBranch p hp cs hc ih=>
  intro h
  obtain⟨l,v,hl⟩:=hc.exists_key
  obtain⟨hw,-⟩:=h (p++l) v (by simpa using hl)
  obtain⟨-,hin,hlen⟩:=hw.of_append (by rintro rfl;cases hl)
  exact .inner hp hin hlen (ih h.edge)
 | @branch cs hc hf ih=>
  intro h
  exact .branch (fun i hi he=>ih i he (h.child hi)) (h.last (hc 16))

/-- Keys none of which begins another one. -/
structure KeySet where
 keys:Set Bytes
 prefixFree:∀a∈keys,∀b∈keys,a <+: b→a=b
 size:∀k∈keys,k.length<2^62

def KeySet.ofLength (n:ℕ) (h:n<2^62):KeySet where
 keys:={k | k.length=n}
 prefixFree _ ha _ hb hab:=hab.eq_of_length (ha.trans hb.symm)
 size _ hk:=hk▸h

def Mapping.Over (m:Mapping) (K:KeySet):Prop:=∀k v,m k=some v→k∈K.keys ∧ v≠[] ∧ v.length<2^62

lemma over_empty(K:KeySet):Mapping.Over (fun _=>none) K:=fun _ _ h=>nomatch h

variable {K:KeySet}

/-- Keys and values of a size that a byte slice can have, and no empty value. -/
def Mapping.Bounded (m:Mapping):Prop:=∀k v,m k=some v→k.length<2^62 ∧ v≠[] ∧ v.length<2^62

section

variable (h:Represents t m)

include h

lemma Represents.shaped_of_bounded(hm:m.Bounded)(ht:t≠.empty):Shaped t:=by
 refine shaped_of_wellWorded (h.normal ht) fun l v hl=>?_
 obtain⟨k,rfl,hk⟩:=h.of_lookup hl
 obtain⟨hlen,hv⟩:=hm k v hk
 exact⟨hexWord_compactHexDecode hlen,hv⟩

lemma Represents.shaped(hm:m.Over K):t≠.empty → Shaped t:=
 h.shaped_of_bounded fun k v hk=>⟨K.size k (hm k v hk).1,(hm k v hk).2⟩

/-- Closed by their terminators, hex keys never continue one another. -/
lemma Represents.fits(k:Bytes):Tree.Fits (compactHexDecode k) t:=by
 have hpre:∀a b:Bytes,compactHexDecode a <+: compactHexDecode b →
  compactHexDecode a=compactHexDecode b:=fun a b hab=>by
  rcases List.prefix_concat_iff.mp hab with heq|hsub
  ·exact heq
  exact absurd (hsub.subset (by simp[compactHexDecode])) (terminator_notMem b)
 intro l v hl hcmp
 obtain⟨k',rfl⟩:=h.hex l v hl
 rcases hcmp with hcmp|hcmp
 ·exact (hpre k k' hcmp).symm
 exact hpre k' k hcmp

lemma Represents.separated(hm:m.Over K)(hk:k∈K.keys):Separated (compactHexDecode k) t:=by
 intro l v hl hne
 obtain⟨k',rfl,hk'⟩:=h.of_lookup hl
 have hkK:=(hm k' v hk').1
 rw[dropLast_hexKey,dropLast_hexKey]
 refine⟨fun hp=>hne ?_,fun hp=>hne ?_⟩
 ·rw[K.prefixFree k hk k' hkK (prefix_of_hexKey hp)]
 rw[K.prefixFree k' hkK k hk (prefix_of_hexKey hp)]

lemma Represents.walk(hm:m.Over K)(hk:k∈K.keys):Walk t (nibbles k) (m k) false:=by
 obtain⟨f,w,hf⟩:=exists_walk h.normal (h.shaped hm) (terminator_notMem k)
 have hno:f=false:=by
  rw[←Bool.not_eq_true,hf]
  exact (h.separated hm hk).not_forks
 rwa[hno,←compactHexDecode,h.lookup]at w

lemma Represents.exchange(hnormal:Tree.Normal t')
 (hl:∀l,t'.lookup l=if l=compactHexDecode k then x else t.lookup l):Represents t' (update m k x):=by
 refine⟨hnormal,fun l=>?_,fun l w hw=>?_⟩
 ·rw[hl]
  by_cases hlk:l=k
  ·rw[hlk,if_pos rfl,update_self]
  rw[if_neg fun he=>hlk (compactHexDecode_injective he),update_of_ne hlk,h.lookup]
 rw[hl]at hw
 split at hw
 ·rename_i hlk
  exact⟨k,hlk⟩
 exact h.hex l w hw

lemma Represents.insert(k:Bytes)(hv:v≠[]):
 Represents (t.insert (compactHexDecode k) v) (m.write k v):=by
 have hfit:=h.fits k
 rw[Mapping.write,if_neg hv]
 exact h.exchange (Tree.canonical_insert h.normal hfit v).normal (Tree.lookup_insert h.normal hfit v)

lemma Represents.delete(k:Bytes):Represents (t.delete (compactHexDecode k)) (m.erase k):=
 h.exchange (Tree.normal_delete h.normal _) (Tree.lookup_delete _ _)

end

lemma Mapping.Over.write(hm:m.Over K)(hk:k∈K.keys)(hv:v.length<2^62):(m.write k v).Over K:=by
 intro l w hl
 unfold Mapping.write at hl
 by_cases hlk:l=k
 ·rw[hlk,update_self]at hl
  split at hl
  ·cases hl
  rename_i hne
  obtain rfl:=Option.some.inj hl
  exact⟨hlk▸hk,hne,hv⟩
 rw[update_of_ne hlk]at hl
 exact hm l w hl

lemma Mapping.Over.erase(hm:m.Over K)(k:Bytes):(m.erase k).Over K:=by
 intro l w hl
 unfold Mapping.erase at hl
 by_cases hlk:l=k
 ·rw[hlk,update_self]at hl
  cases hl
 rw[update_of_ne hlk]at hl
 exact hm l w hl

end GoCoupe.TrieMappings
