import GoCoupe.TrieNodes

/-!
# Nodes embedded in their parents

Embedded nodes take at most 32 bytes and a reference by hash takes 33, so all references of a
decoded node stand in its own slots.
-/

namespace GoCoupe.EmbeddedNodes
open HexPrefixKeys RlpRawSplitting TrieNodes List Function

inductive Refers:Node→Bytes→Prop
 | hash (h:Bytes):Refers (.hashNode h) h
 | short {key:List Nibble} {val:Node} {h:Bytes} (hv:Refers val h):Refers (.shortNode key val) h
 | full {cs:Nibble→Node} {i:Nibble} {h:Bytes} (hc:Refers (cs i) h):Refers (.fullNode cs) h

def Ends {ε α:Type} (x:Outcome ε α) (a:α):Prop:=x.run=some (.ok a)

variable {ε α:Type} {x:Outcome ε α} {a:α} {b rest v buf h:Bytes} {k:Kind} {n:Node}

lemma ends_bind{b:β}(h:Ends (x>>=f) b):∃a,Ends x a∧Ends (f a) b:=by
 unfold Ends at h ⊢
 rw[ExceptT.run_bind]at h
 rcases hx:x.run with _|(e|a)
 ·rw[hx]at h
  cases h
 ·rw[hx]at h
  cases h
 rw[hx]at h
 exact⟨a,rfl,h⟩

lemma ends_pure{b:α}(h:Ends (pure a:Outcome ε α) b):a=b:=Except.ok.inj (Option.some.inj h)

lemma not_ends_throw:¬Ends (throw e:Outcome ε α) a:=by
 intro h
 cases h

lemma not_ends_crash:¬Ends (crash:Outcome ε α) a:=by
 intro h
 cases h

lemma ends_relabel(h:Ends (relabel f x) a):Ends x a:=by
 have hrun:(relabel f x).run=x.run.map (Except.mapError f):=rfl
 rw[Ends,hrun]at h
 rcases hx:x.run with _|(e|b)
 ·rw[hx]at h
  cases h
 ·rw[hx]at h
  cases h
 rw[hx]at h
 cases h
 exact hx

lemma ends_wrapError{x:Outcome DecodeError α}(h:Ends (wrapError context x) a):Ends x a:=ends_relabel h

lemma readSize_ends(h:Ends (readSize b slen) size):slen≤b.length:=by
 unfold readSize at h
 by_contra hlt
 rw[if_pos (by omega)]at h
 exact not_ends_throw h

/-- A tag lies inside the input, and only single bytes have none. -/
lemma readTag_ends{b:UInt8}{tail:Bytes}{ts cs:ℕ}(h:Ends (readTag b tail) (k,ts,cs)):
 ts≤tail.length+1∧(k≠.byte → 1≤ts)∧1≤ts+cs:=by
 unfold readTag at h
 split at h
 ·cases ends_pure h
  exact⟨Nat.zero_le _,fun hk=>absurd rfl hk,by omega⟩
 split at h
 ·split at h
  ·split at h
   ·exact absurd h not_ends_crash
   split at h
   ·exact absurd h not_ends_throw
   cases ends_pure h
   exact⟨by omega,fun _=>le_rfl,by omega⟩
  cases ends_pure h
  exact⟨by omega,fun _=>le_rfl,by omega⟩
 split at h
 ·obtain⟨size,hs,h⟩:=ends_bind h
  have:=readSize_ends hs
  cases ends_pure h
  exact⟨by omega,fun _=>by omega,by omega⟩
 split at h
 ·cases ends_pure h
  exact⟨by omega,fun _=>le_rfl,by omega⟩
 obtain⟨size,hs,h⟩:=ends_bind h
 have:=readSize_ends hs
 cases ends_pure h
 exact⟨by omega,fun _=>by omega,by omega⟩

lemma readKind_ends(h:Ends (readKind b) (k,ts,cs)):
 ∃x tail,b=x::tail∧Ends (readTag x tail) (k,ts,cs)∧cs≤b.length-ts:=by
 unfold readKind at h
 split at h
 ·exact absurd h not_ends_throw
 next x tail =>
 obtain⟨⟨k',ts',cs'⟩,ht,h⟩:=ends_bind h
 dsimp only at h
 split at h
 ·exact absurd h not_ends_throw
 next hle =>
 cases ends_pure h
 exact⟨x,tail,rfl,ht,Nat.le_of_not_gt hle⟩

/-- The first value of the input, its tag and the rest make up the input. -/
lemma split_ends(h:Ends (split b) (k,v,rest)):
 ∃ts,ts+v.length+rest.length=b.length∧(k≠.byte → 1≤ts):=by
 obtain⟨⟨k',ts,cs⟩,hk,h⟩:=ends_bind h
 cases ends_pure h
 obtain⟨x,tail,rfl,ht,hle⟩:=readKind_ends hk
 obtain⟨hts,hpos,-⟩:=readTag_ends ht
 refine⟨ts,?_,hpos⟩
 rw[length_cons]at hle ⊢
 rw[length_take,length_drop,length_drop,length_cons]
 omega

lemma split_lt(h:Ends (split b) (k,v,rest)):rest.length<b.length:=by
 obtain⟨⟨k',ts,cs⟩,hk,h⟩:=ends_bind h
 cases ends_pure h
 obtain⟨x,tail,rfl,ht,-⟩:=readKind_ends hk
 have:=(readTag_ends ht).2.2
 rw[length_drop,length_cons]
 omega

lemma splitString_ends(h:Ends (splitString b) (v,rest)):v.length+rest.length≤b.length:=by
 obtain⟨⟨k,v',rest'⟩,hs,h⟩:=ends_bind h
 dsimp only at h
 split at h
 ·exact absurd h not_ends_throw
 cases ends_pure h
 obtain⟨ts,hsum,-⟩:=split_ends hs
 omega

lemma splitList_ends(h:Ends (splitList b) (v,rest)):Ends (split b) (.list,v,rest):=by
 obtain⟨⟨k,v',rest'⟩,hs,h⟩:=ends_bind h
 dsimp only at h
 split at h
 ·exact absurd h not_ends_throw
 rename_i hk
 cases ends_pure h
 rwa[not_not.1 hk]at hs

section Slots

variable {dec:Bytes→Outcome DecodeError Node}

variable {P:Node→Prop}

/-- A slot is empty, or holds a hash, or a node that takes at most 32 bytes. -/
lemma decodeRef_ends{rest:Bytes}{n:Node}(h:Ends (decodeRef dec buf) (n,rest)):
 rest.length≤buf.length∧(n=.nil∨(∃k,n=.hashNode k∧33≤buf.length)∨
   (Ends (dec buf) n∧∃v,Ends (split buf) (.list,v,rest)∧buf.length-rest.length≤32)):=by
 obtain⟨⟨k,v,rest'⟩,hs,h⟩:=ends_bind h
 replace hs:=ends_relabel hs
 obtain⟨ts,hsum,hts⟩:=split_ends hs
 dsimp only at h
 split at h
 ·rename_i hk
  split at h
  ·exact absurd h not_ends_throw
  rename_i hsize
  obtain⟨n',hn,h⟩:=ends_bind h
  cases ends_pure h
  rw[hk]at hs
  exact⟨by omega,.inr (.inr ⟨hn,v,hs,Nat.not_lt.1 hsize⟩)⟩
 split at h
 ·cases ends_pure h
  exact⟨by omega,.inl rfl⟩
 split at h
 ·rename_i hk
  cases ends_pure h
  have hpos:=hts (by rw[hk.1];decide)
  exact⟨by omega,.inr (.inl ⟨v,rfl,by omega⟩)⟩
 exact absurd h not_ends_throw

lemma decodeChildren_ends(href:∀buf n rest,buf.length≤L→Ends (decodeRef dec buf) (n,rest)→P n)
 {n₀ n:Nibble→Node}{rest:Bytes}(hL:buf.length≤L)
 (h0:∀i,P (n₀ i))(h:Ends (decodeChildren dec is n₀ buf) (n,rest)):∀i,P (n i):=by
 induction is generalizing n₀ buf with
 | nil=>
  cases ends_pure h
  exact h0
 | cons i is ih=>
  obtain⟨⟨c,rest'⟩,hc,h⟩:=ends_bind h
  replace hc:=ends_wrapError hc
  have hlen:=(decodeRef_ends hc).1
  refine ih (by omega) (fun j=>?_) h
  rw[update_apply]
  split
  ·exact href _ _ _ hL hc
  exact h0 j

variable (href:∀b c rest,b.length≤buf.length→Ends (decodeRef dec b) (c,rest)→P c)
 (hval:∀v,P (.valueNode v))

include href hval

lemma decodeShort_ends(h:Ends (decodeShort dec buf) n):∃key c,n=.shortNode key c∧P c:=by
 obtain⟨⟨kbuf,rest⟩,hk,h⟩:=ends_bind h
 have hlen:=splitString_ends (ends_relabel hk)
 dsimp only at h
 split at h
 ·exact absurd h not_ends_crash
 split at h
 ·exact absurd h not_ends_crash
 split at h
 ·obtain⟨⟨v,rest'⟩,-,h⟩:=ends_bind h
  cases ends_pure h
  exact⟨_,_,rfl,hval _⟩
 obtain⟨⟨c,rest'⟩,hc,h⟩:=ends_bind h
 cases ends_pure h
 exact⟨_,_,rfl,href _ _ _ (by omega) (ends_wrapError hc)⟩

lemma decodeFull_ends(hnil:P .nil)(h:Ends (decodeFull dec buf) n):∃cs,n=.fullNode cs∧∀i,P (cs i):=by
 obtain⟨⟨cs,rest⟩,hc,h⟩:=ends_bind h
 have hcs:=decodeChildren_ends href le_rfl (fun _=>hnil) hc
 obtain⟨⟨v,rest'⟩,-,h⟩:=ends_bind h
 dsimp only at h
 split at h
 ·cases ends_pure h
  refine⟨_,rfl,fun i=>?_⟩
  rw[update_apply]
  split
  ·exact hval v
  exact hcs i
 cases ends_pure h
 exact⟨cs,rfl,hcs⟩

end Slots

/-- A decoded node is a short or a full one; `P` holds in its slots. -/
lemma decodeNested_ends{P:Node→Prop}(h:Ends (decodeNested (fuel+1) buf) n)
 (href:∀elems rest,Ends (splitList buf) (elems,rest)→∀b c r,b.length≤elems.length →
  Ends (decodeRef (decodeNested fuel) b) (c,r)→P c)(hval:∀v,P (.valueNode v))(hnil:P .nil):
 (∃key c,n=.shortNode key c∧P c)∨∃cs,n=.fullNode cs∧∀i,P (cs i):=by
 rw[decodeNested]at h
 split at h
 ·exact absurd h not_ends_throw
 obtain⟨⟨elems,rest⟩,hs,h⟩:=ends_bind h
 replace hs:=ends_relabel hs
 obtain⟨c,-,h⟩:=ends_bind h
 split at h
 ·exact .inl (decodeShort_ends (href elems rest hs) hval (ends_wrapError h))
 split at h
 ·exact .inr (decodeFull_ends (href elems rest hs) hval hnil (ends_wrapError h))
 exact absurd h not_ends_throw

lemma not_refers_nil:¬Refers .nil h:=by
 intro hr
 cases hr

lemma not_refers_value:¬Refers (.valueNode v) h:=by
 intro hr
 cases hr

/-- A node whose content takes at most 32 bytes holds no reference. -/
lemma not_refers_of_small(hn:Ends (decodeNested fuel buf) n)
 (hs:Ends (split buf) (.list,v,rest))(hv:v.length≤32)(h:Bytes):¬Refers n h:=by
 induction fuel generalizing buf v rest n h with
 | zero=>exact absurd hn not_ends_crash
 | succ fuel ih=>
  have hslots:=decodeNested_ends (P:=fun c=>∀h,¬Refers c h) hn ?_
   (fun _ _=>not_refers_value) (fun _=>not_refers_nil)
  ·rcases hslots with⟨key,c,rfl,hc⟩|⟨cs,rfl,hcs⟩
   ·intro hr
    cases hr with
    | short hr=>exact hc h hr
   intro hr
   cases hr with
   | full hr=>exact hcs _ h hr
  intro elems rest' hs' b c r hb hc k
  have he:elems=v:=by
   have:=splitList_ends hs'
   rw[Ends,hs]at this
   cases this
   rfl
  subst he
  rcases (decodeRef_ends hc).2 with rfl|⟨k',rfl,hlen⟩|⟨hdec,w,hw,hsize⟩
  ·exact not_refers_nil
  ·omega
  obtain⟨ts,hsum,-⟩:=split_ends hw
  exact ih hdec hw (by omega) k

/-- All references of a decoded node stand in its own slots. -/
lemma refers_direct(hn:Ends (decodeNode buf) n)(hr:Refers n h):
 (∃key,n=.shortNode key (.hashNode h))∨∃cs i,n=.fullNode cs∧cs i=.hashNode h:=by
 have hslots:=decodeNested_ends (P:=fun c=>Refers c h→c=.hashNode h) hn ?_
  (fun _ hr=>absurd hr not_refers_value) (absurd · not_refers_nil)
 ·rcases hslots with⟨key,c,rfl,hc⟩|⟨cs,rfl,hcs⟩
  ·cases hr with
   | short hr=>exact .inl ⟨key,by rw[hc hr]⟩
  cases hr with
  | @full _ i _ hr=>exact .inr ⟨cs,i,rfl,hcs i hr⟩
 intro elems rest hs b c r hb hc hrc
 rcases (decodeRef_ends hc).2 with rfl|⟨k',rfl,-⟩|⟨hdec,w,hw,hsize⟩
 ·exact absurd hrc not_refers_nil
 ·cases hrc
  rfl
 obtain⟨ts,hsum,-⟩:=split_ends hw
 exact absurd hrc (not_refers_of_small hdec hw (by omega) h)

end GoCoupe.EmbeddedNodes
