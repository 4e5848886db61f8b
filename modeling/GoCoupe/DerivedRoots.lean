import GoCoupe.CanonicalRoots
import GoCoupe.RlpTypedEncoding

/-!
# Roots of transactions and receipts

`DeriveSha` writes the items of a list into an empty trie, each under its encoded index. The keys
have different lengths, but none is the beginning of another.
-/

namespace GoCoupe.DerivedRoots
open BigEndianBytes RlpEncoding RlpRawSplitting RlpTypedValues RlpTypedEncoding RlpValueReading
open HexPrefixKeys PatriciaTrees TrieOperations TrieMappings TrieSessions CanonicalRoots
open List Function

/-- What `GetRlp` returns for the indices below `Len`. -/
structure DerivableList where
 rlps:List Bytes
 len_lt:rlps.length<2^63
 encoded:∀e∈rlps,e≠[] ∧ e.length<2^62

/-- `rlp.Encode(keybuf, uint(i))`. -/
def keybuf (i:ℕ):Option Bytes:=
 match encodeToBytes (.uint .w64) (BitVec.ofNat 64 i) with
 | .ok key=>key
 | .error _=>none

def updateAt (s:Trie × Store) (e:Bytes × ℕ):Option (Trie × Store):=
 (keybuf e.2).bind (s.1.update s.2 · e.1)

def deriveSha (sha3:Bytes→Bytes) (list:DerivableList):Option Bytes:=
 (list.rlps.zipIdx.foldlM updateAt (⟨.nil⟩,Session.start.store)).bind (·.1.hash sha3)

def indexKey (i:ℕ):Bytes:=encodeString (shortest i)

lemma keybuf_eq(h:i<2^64):keybuf i=some (indexKey i):=by
 rw[keybuf,encodeToBytes_eq (show NonNegative (.uint .w64) (BitVec.ofNat 64 i) from trivial)]
 change some (encodeString (shortest (BitVec.ofNat 64 i).toNat))=_
 rw[BitVec.toNat_ofNat,Nat.mod_eq_of_lt h]
 rfl

lemma encodeString_prefixFree(ha:a.length<2^64)(hb:b.length<2^64)
 (h:encodeString a++rest=encodeString b):a=b:=by
 have hsplit:=splitString_string a rest ha
 rw[h,←append_nil (encodeString b),splitString_string b [] hb]at hsplit
 cases hsplit
 rfl

lemma shortest_length_lt(h:i<2^64):(shortest i).length<2^61:=by
 rw[shortest_length]
 exact (width_le_iff.2 (h.trans_eq (by norm_num:2^64=256^8))).trans_lt (by norm_num)

lemma indexKey_injective(hi:i<2^64)(hj:j<2^64)(h:indexKey i=indexKey j):i=j:=by
 have hshort:=encodeString_prefixFree ((shortest_length_lt hi).trans (by norm_num))
  ((shortest_length_lt hj).trans (by norm_num)) ((append_nil _).trans h)
 rw[←value_shortest i,hshort,value_shortest]

def indexKeys:KeySet where
 keys:={k | ∃i<2^64,k=indexKey i}
 prefixFree:=by
  rintro _ ⟨i,hi,rfl⟩ _ ⟨j,hj,rfl⟩ ⟨rest,h⟩
  rw[indexKey,encodeString_prefixFree ((shortest_length_lt hi).trans (by norm_num))
   ((shortest_length_lt hj).trans (by norm_num)) h,indexKey]
 size:=by
  rintro _ ⟨i,hi,rfl⟩
  have hlen:=encodeString_length (shortest i)
  have hshort:=shortest_length_lt hi
  rw[indexKey]
  omega

def writes (items:List (Bytes × ℕ)):List Op:=items.map (fun e=>.update (indexKey e.2) e.1)

lemma run_writes(sha3:Bytes→Bytes)(h:∀e∈items,e.2<2^64)(s:Session):s.run sha3 (writes items) =
  (items.foldlM updateAt (s.trie,s.store)).map (fun r=>⟨r.2,r.1,s.roots⟩):=by
 induction items generalizing s with
 | nil=>rfl
 | cons e items ih=>
  obtain⟨he,h⟩:=forall_mem_cons.1 h
  rw[writes,map_cons,Session.run,Session.step,foldlM_cons,updateAt,keybuf_eq he,Option.bind_some]
  cases s.trie.update s.store (indexKey e.2) e.1 with
  | none=>rfl
  | some r=>exact ih h _

lemma current_writes{rlps:List Bytes}(hlen:rlps.length<2^63)(hne:∀e∈rlps,e≠[]){i:ℕ}
 (hi:i<2^64):(History.start.run (writes rlps.zipIdx)).current (indexKey i)=rlps[i]?:=by
 induction rlps using reverseRecOn with
 | nil=>rfl
 | append_singleton rlps e ih=>
  rw[length_append,length_singleton]at hlen
  have hlast:e≠[]:=hne e (by simp)
  have ih:=ih (by omega) (fun e he=>hne e (mem_append_left _ he))
  rw[zipIdx_append,writes,map_append,History.run,foldl_append]
  change Mapping.write (History.start.run (writes rlps.zipIdx)).current (indexKey (0+rlps.length)) e _=_
  rw[Mapping.write,zero_add,if_neg hlast]
  by_cases heq:i=rlps.length
  ·rw[heq,update_self]
   simp
  rw[update_of_ne (fun h=>heq (indexKey_injective hi (by omega) h)),ih,getElem?_append]
  split
  ·rfl
  rw[getElem?_eq_none (by omega),getElem?_eq_none (by simp;omega)]

variable {sha3:Bytes→Bytes} {E:Set Bytes}

lemma mem_zipIdx_bounds(list:DerivableList):∀e∈list.rlps.zipIdx,e.2<2^64∧e.1.length<2^62:=by
 intro e he
 have hidx:=snd_lt_of_mem_zipIdx he
 have hlen:=list.len_lt
 refine⟨?_,(list.encoded e.1 (fst_mem_of_mem_zipIdx he)).2⟩
 omega

lemma deriveSha_matches(hE:CollisionFree sha3 E)(h80:[0x80]∉E)(list:DerivableList)
 (h:nodesOf sha3 (History.start.reached (writes list.rlps.zipIdx))⊆E):
 ∃s,Matches sha3 E indexKeys s (History.start.run (writes list.rlps.zipIdx))∧
  deriveSha sha3 list=s.trie.hash sha3:=by
 have hbounds:=mem_zipIdx_bounds list
 obtain⟨s,hrun,hs⟩:=(matches_start indexKeys).run hE h80 (by
  intro op hop
  obtain⟨e,he,rfl⟩:=mem_map.1 hop
  exact⟨⟨e.2,(hbounds e he).1,rfl⟩,(hbounds e he).2⟩) h
 rw[run_writes sha3 fun e he=>(hbounds e he).1]at hrun
 obtain⟨r,hr,rfl⟩:=Option.map_eq_some_iff.1 hrun
 exact⟨_,hs,congrArg (Option.bind · _) hr⟩

/-- Two lists have the same root exactly when they are the same list of encodings. -/
theorem deriveSha_eq_iff (a b : DerivableList) (hE : CollisionFree sha3 (nodesOf sha3
      (History.start.reached (writes a.rlps.zipIdx) ++
        History.start.reached (writes b.rlps.zipIdx)))) :
    ∃ root root', deriveSha sha3 a = some root ∧ deriveSha sha3 b = some root' ∧
      (root = root' ↔ a.rlps = b.rlps) := by
 have h80:=emptyString_not_node hE.length (History.start.reached (writes a.rlps.zipIdx)++
  History.start.reached (writes b.rlps.zipIdx))
 obtain⟨s,hs,ha⟩:=deriveSha_matches hE h80 a (nodesOf_mono fun m hm=>mem_append_left _ hm)
 obtain⟨s',hs',hb⟩:=deriveSha_matches hE h80 b (nodesOf_mono fun m hm=>mem_append_right _ hm)
 obtain⟨root,root',hroot,hroot',hiff⟩:=hash_eq_iff hE h80 hs hs' (nodesOf_mono (ends_mem_reached _ _))
 refine⟨root,root',ha.trans hroot,hb.trans hroot',fun h=>?_,fun h=>hiff.2 (by rw[h])⟩
 refine ext_getElem? fun i=>?_
 by_cases hi:i<2^64
 · rw[←current_writes a.len_lt (fun e he=>(a.encoded e he).1) hi,hiff.1 h,
    current_writes b.len_lt (fun e he=>(b.encoded e he).1) hi]
 have ha:=a.len_lt
 have hb:=b.len_lt
 rw[getElem?_eq_none (by omega),getElem?_eq_none (by omega)]

open Sample

def noItems:DerivableList:=⟨[],by decide,by decide⟩

def oneItem:DerivableList:=⟨[[0xc0]],by decide,by decide⟩

lemma represents_oneItem:Represents (Tree.insert .empty (compactHexDecode (indexKey 0)) [0xc0])
 (History.start.current.write (indexKey 0) [0xc0]):=
 represents_empty.insert _ (by simp)

theorem deriveSha_ne_of_longer : ∃ root root', deriveSha padHash noItems = some root ∧
    deriveSha padHash oneItem = some root' ∧ root ≠ root' := by
 obtain⟨root,root',h,h',hiff⟩:=@deriveSha_eq_iff padHash noItems oneItem (by
  refine collisionFree_padHash fun m hm=>?_
  simp only[noItems,oneItem,writes,zipIdx_nil,zipIdx_cons,map_nil,map_cons,cons_append,nil_append,
   History.reached,mem_cons,not_mem_nil,or_false] at hm
  rcases hm with rfl|rfl|rfl
  · exact⟨.empty,represents_empty,fun h=>absurd rfl h⟩
  · exact⟨.empty,represents_empty,fun h=>absurd rfl h⟩
  exact⟨_,represents_oneItem,fun h=>⟨represents_oneItem.shaped
   ((over_empty indexKeys).write ⟨0,by decide,rfl⟩ (by decide)) h,by decide⟩⟩)
 exact⟨root,root',h,h',fun heq=>absurd (hiff.1 heq) (by decide)⟩

end GoCoupe.DerivedRoots
