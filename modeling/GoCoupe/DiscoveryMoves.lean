import GoCoupe.DiscoveryBonding
import Mathlib.Logic.Relation
import Mathlib.Data.List.InsertIdx

/-!
# What an action of the discovery protocol does

Every action is a sequence of small edits of the state: a log entry, a record, a step of one
bonding process, a new process, a new pending reply, a turn of the table. An invariant is proved
edit by edit.
-/

namespace GoCoupe.DiscoveryMoves
open GuardedRuns DiscoveryBonding List Option Relation Function

variable {ι α:Type}

/-- The ping of the process has been answered, and it still runs. -/
def Past (b:Bond ι α):Prop:=b.pc=.ponged ∨ b.pc=.waitping ∨ b.pc=.waited

/-- The node that a bonding process is about. -/
def made (b:Bond ι α):Node ι α:=⟨b.id,b.addr,b.tcp⟩

/-- The nodes in the buckets. -/
def table (s:Discovery ι α) (i:ℕ):List (Node ι α):=(s.buckets i).map Entry.node

/-- The node that an action offers to the table. -/
def Offers (s:Discovery ι α):Action ι α→Node ι α→Prop
 | .finish k _,n=>∃b m,s.bonds[k]?=some b ∧ b.pc=.finished m ∧ m.or b.known=some n
 | .evict k _,n=>∃e,s.evictions[k]?=some e ∧ e.reply=.timedOut ∧ e.new=n
 | _,_=>False

variable {P:Params ι α} {s m:Discovery ι α} {a:Action ι α}
 {t:Discovery ι α} {k:ℕ} {id:ι} {b:Bond ι α} {n:Node ι α} {now:ℤ} {hash:Bytes}

/-- The closest nodes are nodes of the table. -/
lemma mem_closest(h:x∈closest P m target):∃i,x∈table m i:=by
 have hfold:∀(es:List (Entry ι α)) (acc:List (Node ι α)),
  x∈es.foldl (fun ns e=>push P target ns e.node) acc→x∈acc∨x∈es.map Entry.node:=by
  intro es
  induction es with
  | nil=>exact fun _=>.inl
  | cons e es ih=>
   intro acc hx
   obtain hx|hx:=ih _ hx
   ·obtain rfl|hx:=eq_or_mem_of_mem_insertIdx (mem_of_mem_take hx)
    ·exact .inr (by simp)
    exact .inl hx
   exact .inr (mem_cons_of_mem _ hx)
 obtain hx|hx:=hfold _ _ h
 ·cases hx
 obtain⟨e,he,rfl⟩:=mem_map.1 hx
 obtain⟨i,-,he⟩:=mem_flatMap.1 he
 exact⟨i,mem_map_of_mem he⟩

lemma table_updateBucket(id:ι)(f:List (Entry ι α) → List (Entry ι α)):
 table (updateBucket P id f m)=update (table m) (P.logdist id)
  ((f (m.buckets (P.logdist id))).map Entry.node):=by
 funext i
 by_cases hi:i=P.logdist id
 ·subst hi
  simp[table,updateBucket]
 simp[table,updateBucket,hi]

/-- A change of a bucket that keeps its nodes. -/
lemma table_updateBucket_same
 (h:(f (m.buckets (P.logdist id))).map Entry.node=table m (P.logdist id)):
 table (updateBucket P id f m)=table m:=by
 rw[table_updateBucket,h,update_eq_self]

variable [DecidableEq ι]

/-- `Table.stuff` for one node, on the nodes of the buckets. -/
def stuffed (P:Params ι α) (T:ℕ→List (Node ι α)) (n:Node ι α):ℕ→List (Node ι α):=
 let b:=T (P.logdist n.id)
 if n.id=P.self ∨ n.id∈b.map Node.id ∨ bucketSize≤b.length then T
 else update T (P.logdist n.id) (b++[n])

section Edits

variable (P s)

/-- The table after an action that is taken in `s` and changes it. -/
inductive Turn:Action ι α→(ℕ→List (Node ι α))→Prop
 | bump {a:Action ι α} {n:Node ι α} (hoffer:Offers s a n)
  (hin:n.id∈(table s (P.logdist n.id)).map Node.id) :
  Turn a (update (table s) (P.logdist n.id)
   (n::(table s (P.logdist n.id)).eraseP (·.id=n.id)))
 | replace {a:Action ι α} {n:Node ι α} (hoffer:Offers s a n)
  (hnew:n.id∉(table s (P.logdist n.id)).map Node.id)
  (hfull:(table s (P.logdist n.id)).length=bucketSize→∃k now e,a=.evict k now ∧
   s.evictions[k]?=some e ∧ e.reply=.timedOut ∧
   (table s (P.logdist n.id)).getLast?.map Node.id=some e.oldest.id) :
  Turn a (update (table s) (P.logdist n.id)
   ((n::table s (P.logdist n.id)).take bucketSize))
 | delete {k:ℕ} (id:ι):Turn (.queried k) (update (table s) (P.logdist id)
  ((table s (P.logdist id)).eraseP (·.id=id)))
 | stuff (nodes:List (Node ι α)):Turn (.stuff nodes) (nodes.foldl (stuffed P) (table s))
 | restart:Turn .restart (fun _=>[])

/-- Only what no invariant speaks of changes. -/
structure Quiet (m t:Discovery ι α):Prop where
 log:t.log=m.log
 db:∀id,(t.db id).node=(m.db id).node
 bonds:t.bonds=m.bonds
 table:table t=table m
 evictions:∀e∈t.evictions,∃e'∈m.evictions,e'.new=e.new
 plist:t.plist⊆m.plist

/-- A step of the process with number `k` in `m`, while an action is taken in `s`. -/
inductive Advance (a:Action ι α) (m:Discovery ι α) (k:ℕ) (b:Bond ι α):Bond ι α→Prop
 | same:Advance a m k b b
 | blank {known:Option (Node ι α)} {pc:BondPc ι α}
  (hknown:known=b.known ∨ known=(m.db b.id).node)
  (hpc:pc≠.ponged ∧ pc≠.waitping ∧ pc≠.waited)
  (hresult:∀n,pc.result=some (some n)→∃w∈m.bonds,w.pc.result=some (some n)) :
  Advance a m k b {b with known:=known,pc:=pc}
 | past {pc:BondPc ι α} (hb:Past b) (hpc:pc=.waitping ∨ pc=.waited) :
  Advance a m k b {b with pc:=pc}
 | ponged {now:ℤ} {src:α} {id:ι} {mac tok:Bytes} {exp:UInt64} {p:Pending ι}
  (ha:a=.packet now src id mac (.pong tok exp)) (hexp:expired now exp=false)
  (hfind:s.plist.find? (fun p=>p.id=id ∧ p.ptype=.pong)=some p) (howner:p.owner=.bond k)
  (hlog:m.log=s.log++[.received src id (.pong tok exp)]) (hbonds:m.bonds=s.bonds) :
  Advance a m k b {b with pc:=.ponged}
 | bonded (hb:Past b):Advance a m k b {b with pc:=.finished (some (made b))}

/-- A neighbors packet answers a query of a known node with nodes of the table. -/
def Answers (a:Action ι α) (m:Discovery ι α) (dst:α) (nodes:List (Node ι α)):Prop:=
 (∃now id mac target exp,a=.packet now dst id mac (.findnode target exp) ∧
  expired now exp=false ∧ (s.db id).node≠none ∧ m.db=s.db) ∧ ∀n∈nodes,∃i,n∈table m i

inductive Edit (a:Action ι α):Discovery ι α→Discovery ι α→Prop
 | quiet {m t:Discovery ι α} (h:Quiet m t):Edit a m t
 | log {m:Discovery ι α} {e:Event ι α}
  (he:∀dst nodes,e=.sent dst (.neighbors nodes) → Answers s a m dst nodes) :
  Edit a m {m with log:=m.log++[e]}
 | record {m:Discovery ι α} {id:ι} {r:Record ι α}
  (hr:∀n,r.node=some n→∃b∈m.bonds,Past b ∧ n=made b) :
  Edit a m {m with db:=update m.db id r}
 | bond {m:Discovery ι α} {k:ℕ} {b b':Bond ι α} (hb:m.bonds[k]?=some b)
  (hadvance:Advance s a m k b b'):Edit a m {m with bonds:=m.bonds.set k b'}
 | go {m:Discovery ι α} {b:Bond ι α} (hpc:b.pc=.start) (hknown:b.known=none) :
  Edit a m {m with bonds:=m.bonds++[b]}
 | wait {m:Discovery ι α} {p:Pending ι}
  (hp:∀k,p.owner=.bond k→∃b,m.bonds[k]?=some b ∧ b.id=p.id) :
  Edit a m {m with plist:=m.plist++[p]}
 | contest {m:Discovery ι α} {e:Eviction ι α} (he:Offers s a e.new) :
  Edit a m {m with evictions:=m.evictions++[e]}
 | turn {m:Discovery ι α} {B:ℕ→List (Entry ι α)} (hm:table m=table s)
  (h:Turn P s a (table {m with buckets:=B})):Edit a m {m with buckets:=B}
 | restart {m:Discovery ι α} (ha:a=.restart):Edit a m {fresh ι α with db:=m.db,log:=m.log}

end Edits

abbrev Edits (P:Params ι α) (s:Discovery ι α) (a:Action ι α):=ReflTransGen (Edit P s a)

/-- A change of fields that no invariant speaks of. -/
lemma Edit.frame(hlog:t.log=m.log)(hdb:t.db=m.db)(hbonds:t.bonds=m.bonds)
 (hbuckets:t.buckets=m.buckets)(hevictions:t.evictions=m.evictions)
 (hplist:t.plist⊆m.plist):Edit P s a m t:=by
 refine .quiet ⟨hlog,fun id=>by rw[hdb],hbonds,?_,fun e he=>⟨e,hevictions▸he,rfl⟩,hplist⟩
 funext i
 rw[table,hbuckets,table]

lemma edits_tell(hpong:p.ptype=.pong→answered=true→∀k,p.owner=.bond k→∀b:Bond ι α,
  Advance s a m k b {b with pc:=.ponged}):Edits P s a m (tell p answered m):=by
 unfold DiscoveryBonding.tell
 split
 ·rename_i k hk
  rw[modify_eq_set_getElem?]
  cases hb:m.bonds[k]? with
  | none=>exact .refl
  | some b=>
   refine .single (.bond hb ?_)
   unfold BondPc.told
   split
   ·rename_i hpc hptype
    cases answered with
    | true=>exact hpong hptype rfl k hk b
    | false=>exact .blank (.inl rfl) ⟨nofun,nofun,nofun⟩ nofun
   ·rename_i hpc _
    exact .past (.inr (.inl hpc)) (.inr rfl)
   exact .same
 ·rename_i k hk
  refine .single (.quiet ⟨rfl,fun _=>rfl,rfl,rfl,fun e he=>?_,Subset.refl _⟩)
  dsimp only at he
  rw[modify_eq_set_getElem?]at he
  cases hb:m.evictions[k]? with
  | none=>exact⟨e,by simpa[hb]using he,rfl⟩
  | some e'=>
   rw[hb]at he
   obtain he|rfl:=mem_or_eq_of_mem_set he
   ·exact⟨e,he,rfl⟩
   exact⟨e',mem_of_getElem? hb,rfl⟩
 exact .single (.frame rfl rfl rfl rfl rfl (Subset.refl _))

lemma edit_callback(p:Pending ι)(data:Packet ι α):
 Edit P s a m (callback P p data m).2∧(callback P p data m).2.plist=m.plist:=by
 unfold callback
 split<;>exact⟨.frame rfl rfl rfl rfl rfl (Subset.refl _),rfl⟩

/-- A reply other than a pong ends no ping. -/
lemma edits_dispatch(hptype:ptype≠.pong)(before rest:List (Pending ι))(hsub:before++rest⊆m.plist):
 Edits P s a m (dispatch P id ptype data m before rest).2:=by
 induction rest generalizing before m with
 | nil=>exact .refl
 | cons p rest ih=>
  rw[dispatch]
  split
  ·rename_i hp
   obtain⟨hedit,hplist⟩:=edit_callback (s:=s) (a:=a) p data
   split
   ·rename_i t heq
    rw[heq]at hedit hplist
    have hleft:before++rest⊆t.plist:=fun q hq=>hplist▸hsub (by simp at hq ⊢;tauto)
    refine .head hedit (.head (.frame (t:={t with plist:=before++rest}) rfl rfl rfl rfl rfl hleft)
     (edits_tell ?_))
    exact fun hpong=>absurd (hp.2.symm.trans hpong) hptype
   rename_i t heq
   rw[heq]at hedit hplist
   exact .head hedit (ih _ (by rw[append_assoc,singleton_append,hplist];exact hsub))
  exact ih _ (by rw[append_assoc,singleton_append];exact hsub)

lemma edits_handleReply(id:ι)(data:Packet ι α)(hptype:ptype≠.pong):
 Edits P s a m (handleReply P id ptype data m).2:=
 edits_dispatch hptype [] m.plist (Subset.refl _)

/-- A pong ends the first ping to the identity that is waiting for it. -/
lemma dispatch_pong(id:ι)(tok:Bytes)(exp:UInt64)(before rest:List (Pending ι)):
 (dispatch P id .pong (.pong tok exp) m before rest).2=m∨
  ∃p l,rest.find? (fun p=>p.id=id∧p.ptype=.pong)=some p∧l⊆before++rest∧
   (dispatch P id .pong (.pong tok exp) m before rest).2=tell p true {m with plist:=l}:=by
 induction rest generalizing before with
 | nil=>exact .inl rfl
 | cons p rest ih=>
  rw[dispatch]
  by_cases hmatch:p.id=id∧p.ptype=.pong
  ·have hcallback:callback P p (.pong tok exp) m=(true,m):=by
    unfold callback
    split
    ·rename_i heq
     cases heq
    rfl
   rw[if_pos hmatch,hcallback]
   exact .inr ⟨p,before++rest,find?_cons_of_pos (decide_eq_true hmatch),by simp,rfl⟩
  rw[if_neg hmatch,find?_cons_of_neg (by simpa using hmatch)]
  simpa using ih (before++[p])

lemma edits_sendNeighbors(chunk rest:List (Node ι α))
 (h:Answers s a m dst (chunk++rest)):Edits P s a m (sendNeighbors P dst chunk rest m):=by
 induction rest generalizing m chunk with
 | nil=>exact .refl
 | cons n rest ih=>
  rw[sendNeighbors]
  split
  ·refine .head (.log ?_) (ih [] ⟨h.1,fun x hx=>h.2 x (by simp at hx ⊢;tauto)⟩)
   intro dst' nodes heq
   obtain⟨rfl,hp⟩:=Event.sent.inj heq
   cases Sent.neighbors.inj hp
   exact⟨h.1,fun x hx=>h.2 x (by simp at hx ⊢;tauto)⟩
  exact ih _ ⟨h.1,fun x hx=>h.2 x (by simpa using hx)⟩

lemma edit_updateRecord(h:∀r,(f r).node=r.node):Edit P s a m (updateRecord id f m):=by
 refine .quiet ⟨rfl,fun j=>?_,rfl,rfl,fun e he=>⟨e,he,rfl⟩,Subset.refl _⟩
 by_cases hj:j=id
 ·subst hj
  simp[updateRecord,h]
 simp[updateRecord,hj]

lemma edits_bondall(nodes:List (Node ι α)):
 Edits P s a m (nodes.foldl (fun s n=>goBond false n.id n.addr n.tcp s) m):=by
 induction nodes generalizing m with
 | nil=>exact .refl
 | cons n nodes ih=>exact .head (.go rfl rfl) ih

lemma any_iff_mem{b:List (Entry ι α)}:
 b.any (·.node.id=n.id)=true↔n.id∈(b.map Entry.node).map Node.id:=by
 simp

/-- A node is put into a bucket, or the bucket does not take it. -/
lemma edit_replace(hm:table m=table s)(hoffer:Offers s a n)
 (hlast:(table s (P.logdist n.id)).length=bucketSize →
  last.map Node.id=(table s (P.logdist n.id)).getLast?.map Node.id→∃k now e,a=.evict k now∧
   s.evictions[k]?=some e∧e.reply=.timedOut∧
   (table s (P.logdist n.id)).getLast?.map Node.id=some e.oldest.id):
 Edit P s a m (updateBucket P n.id (DiscoveryBonding.replace n last) m):=by
 have hb:(m.buckets (P.logdist n.id)).map Entry.node=table s (P.logdist n.id):=congrFun hm _
 have hsame:∀f:List (Entry ι α) → List (Entry ι α),f (m.buckets (P.logdist n.id)) =
  m.buckets (P.logdist n.id)→Edit P s a m (updateBucket P n.id f m):=fun f hf=>
  .quiet ⟨rfl,fun _=>rfl,rfl,table_updateBucket_same (by rw[hf,table]),
   fun e he=>⟨e,he,rfl⟩,Subset.refl _⟩
 by_cases hin:(m.buckets (P.logdist n.id)).any (·.node.id=n.id)=true
 ·exact hsame _ (if_pos hin)
 by_cases hfull:(m.buckets (P.logdist n.id)).length=bucketSize∧
  last.map Node.id≠(m.buckets (P.logdist n.id)).getLast?.map (·.node.id)
 ·exact hsame _ ((if_neg hin).trans (if_pos hfull))
 refine .turn hm ?_
 change Turn P s a (table (updateBucket P n.id (DiscoveryBonding.replace n last) m))
 rw[table_updateBucket,DiscoveryBonding.replace,if_neg hin,if_neg hfull,map_take,map_cons,hb,hm]
 rw[any_iff_mem,hb]at hin
 refine .replace hoffer hin (fun hlen=>hlast hlen (not_not.1 fun hne=>hfull ⟨?_,?_⟩))
 ·rw[←hlen,←hb,length_map]
 rwa[←hb,getLast?_map,Option.map_map]at hne

lemma edits_add(hm:table m=table s)(hoffer:Offers s a n):Edits P s a m (add P hash n m):=by
 have hb:∀i,(m.buckets i).map Entry.node=table s i:=fun i=>congrFun hm i
 unfold add
 dsimp only
 split
 ·rename_i hin
  refine .single (.turn hm ?_)
  change Turn P s a (table (updateBucket P n.id (bump n) m))
  rw[any_iff_mem,hb]at hin
  have hbump:(bump n (m.buckets (P.logdist n.id))).map Entry.node =
   n::(table s (P.logdist n.id)).eraseP (·.id=n.id):=by
   rw[bump,map_cons,←hb,eraseP_map]
   rfl
  rw[table_updateBucket,hbump,hm]
  exact .bump hoffer hin
 split
 ·rename_i hnone
  refine .single (edit_replace hm hoffer fun hlen=>?_)
  rw[←hb,getLast?_eq_none_iff.1 hnone]at hlen
  cases hlen
 rename_i oldest hlast
 split
 ·rename_i hlen
  refine .single (edit_replace hm hoffer fun hfull=>absurd ?_ hlen)
  rw[←hfull,←hb,length_map]
 split
 ·exact .refl
 have hmark:table (updateBucket P n.id
  (·.dropLast++[{oldest with contested:=true}]) m)=table m:=by
  obtain⟨l,hl⟩:=getLast?_eq_some_iff.1 hlast
  exact table_updateBucket_same (by simp[table,hl])
 have hquiet:Edit P s a m (updateBucket P n.id _ m):=
  .quiet ⟨rfl,fun _=>rfl,rfl,hmark,fun e he=>⟨e,he,rfl⟩,Subset.refl _⟩
 have hwait:=ReflTransGen.tail (.single hquiet) (.wait (p:=⟨oldest.node.id,.pong,.eviction m.evictions.length⟩) nofun)
 have hcontest:=hwait.tail (.contest (e:=⟨n,oldest.node,.awaited⟩) hoffer)
 exact hcontest.tail (.log (e:=.sent oldest.node.addr (.ping hash)) (fun _ _=>nofun))

lemma edits_bonded(hb:m.bonds[k]?=some b)(hpast:Past b):Edits P s a m (bonded k b m):=by
 refine .head (.record (r:={m.db b.id with node:=some (made b)}) ?_)
  (.head (.bond hb (.bonded hpast)) (.single (.frame rfl rfl rfl rfl rfl (Subset.refl _))))
 exact fun n hn=>⟨b,mem_of_getElem? hb,hpast,(some.inj hn).symm⟩

lemma edits_resumeBond
 (hb:m.bonds[k]?=some b)(h:resumeBond k b now m=some t):Edits P s a m t:=by
 unfold resumeBond at h
 split at h
 ·rename_i hpc
  have hseen:Edit P s a m (updateRecord b.id ({· with lastPong:=now}) m):=
   edit_updateRecord (fun _=>rfl)
  dsimp only at h
  split at h<;>cases h
  ·exact .head hseen (edits_bonded hb (.inl hpc))
  refine .head hseen (.head (.bond hb (.past (.inl hpc) (.inl rfl))) (.single (.wait ?_)))
  intro j hj
  cases hj
  exact⟨_,getElem?_set_self (List.getElem?_eq_some_iff.1 hb).1,rfl⟩
 ·rename_i hpc
  cases h
  exact edits_bonded hb (.inr (.inr hpc))
 ·cases h
  have hset:Edit P s a m (setBond k {b with pc:=.finished none} m):=
   .bond hb (.blank (.inl rfl) ⟨nofun,nofun,nofun⟩ nofun)
  exact .head hset (.single (.frame rfl rfl rfl rfl rfl (Subset.refl _)))
 cases h

lemma edits_beginBond(now:ℤ)(hb:m.bonds[k]?=some b):Edits P s a m (beginBond k b now m):=by
 unfold beginBond
 dsimp only
 split
 ·split
  ·exact .single (.bond hb (.blank (.inr rfl) ⟨nofun,nofun,nofun⟩ nofun))
  have hset:Edit P s a m (setBond k {b with known:=(m.db b.id).node,pc:=.registered} m):=
   .bond hb (.blank (.inr rfl) ⟨nofun,nofun,nofun⟩ nofun)
  exact .head hset (.single (.frame rfl rfl rfl rfl rfl (Subset.refl _)))
 exact .single (.bond hb (.blank (.inr rfl) ⟨nofun,nofun,nofun⟩ nofun))

lemma edits_finishBond{n:Option (Node ι α)}
 (hb:s.bonds[k]?=some b)(hpc:b.pc=.finished n):
 Edits P s (.finish k hash) s (finishBond P k b n hash s):=by
 have hset:Edit P s (.finish k hash) s (setBond k {b with pc:=.returned n} s):=by
  refine .bond hb (.blank (.inl rfl) ⟨nofun,nofun,nofun⟩ (fun x hx=>⟨b,mem_of_getElem? hb,?_⟩))
  rw[hpc]
  exact hx
 unfold finishBond
 dsimp only
 split
 ·exact .single hset
 rename_i x hx
 exact (ReflTransGen.head hset (edits_add rfl ⟨b,n,hb,hpc,hx⟩)).tail (edit_updateRecord fun _=>rfl)

lemma edits_endEviction
 (he:s.evictions[k]?=some e)(h:endEviction P k e now s=some t):Edits P s (.evict k now) s t:=by
 have hover:Edit P s (.evict k now) s {s with evictions:=s.evictions.set k {e with reply:=.over}}:=by
  refine .quiet ⟨rfl,fun _=>rfl,rfl,rfl,fun x hx=>?_,Subset.refl _⟩
  obtain hx|rfl:=mem_or_eq_of_mem_set hx
  ·exact⟨x,hx,rfl⟩
  exact⟨e,mem_of_getElem? he,rfl⟩
 have hcalm:∀m:Discovery ι α,table (updateBucket P e.oldest.id
  (·.map (fun x=>if x.node.id=e.oldest.id then {x with contested:=false} else x)) m)=table m:=by
  intro m
  refine table_updateBucket_same ?_
  rw[List.map_map,table]
  refine map_congr_left fun x _=>?_
  dsimp only[comp]
  split<;>rfl
 have hquiet:∀m:Discovery ι α,Edit P s (.evict k now) m (updateBucket P e.oldest.id
  (·.map (fun x=>if x.node.id=e.oldest.id then {x with contested:=false} else x)) m):=fun m=>
  .quiet ⟨rfl,fun _=>rfl,rfl,hcalm m,fun x hx=>⟨x,hx,rfl⟩,Subset.refl _⟩
 unfold endEviction at h
 dsimp only at h
 split at h<;>cases h
 ·refine .tail (.head hover (.single ?_)) (hquiet _)
  exact edit_updateRecord fun _=>rfl
 rename_i hreply
 refine .head hover (.head (hquiet _) (.single (edit_replace (hcalm _) ⟨e,he,hreply,rfl⟩ ?_)))
 exact fun _ hlast=>⟨k,now,e,rfl,he,hreply,hlast.symm⟩

lemma edit_delete(hm:table m=table s):Edit P s (.queried k) m
 (updateBucket P id (·.eraseP (·.node.id=id)) m):=by
 refine .turn hm ?_
 change Turn P s _ (table (updateBucket P id (·.eraseP (·.node.id=id)) m))
 have hb:(m.buckets (P.logdist id)).map Entry.node=table s (P.logdist id):=congrFun hm _
 have hnodes:((m.buckets (P.logdist id)).eraseP (·.node.id=id)).map Entry.node =
  (table s (P.logdist id)).eraseP (·.id=id):=by
  rw[←hb,eraseP_map]
  rfl
 rw[table_updateBucket,hnodes,hm]
 exact .delete id

lemma edits_endQuery(h:endQuery P k q s=some t):Edits P s (.queried k) s t:=by
 have hover:Edit P s (.queried k) s {s with queries:=s.queries.set k {q with reply:=.over}}:=
  .frame rfl rfl rfl rfl rfl (Subset.refl _)
 unfold endQuery at h
 dsimp only at h
 split at h<;>cases h
 ·exact .head hover (edits_bondall q.nodes)
 refine .trans (.head hover ?_) (edits_bondall q.nodes)
 split
 ·refine .tail (.single ?_) (edit_delete rfl)
  exact edit_updateRecord fun _=>rfl
 exact .single (edit_updateRecord fun _=>rfl)

lemma edits_handle:Edits P s (.packet now src id mac p) s
  (handle P now src id mac {s with log:=s.log++[.received src id p]} p):=by
 have hreceived:Edit P s (.packet now src id mac p) s {s with log:=s.log++[.received src id p]}:=
  .log (fun _ _=>nofun)
 refine .head hreceived ?_
 cases p with
 | ping fromTCP exp=>
  rw[handle]
  split
  ·exact .refl
  refine .head (.log (e:=.sent src (.pong mac)) fun _ _=>nofun) ?_
  have hping:PacketType.ping≠.pong:=nofun
  have hreply:=edits_handleReply (P:=P) (s:=s) (a:=.packet now src id mac (.ping fromTCP exp))
   (m:=send src (.pong mac) {s with log:=s.log++[.received src id (.ping fromTCP exp)]})
   id (.ping fromTCP exp) hping
  dsimp only
  generalize handleReply P id .ping (.ping fromTCP exp) _=r at hreply ⊢
  obtain⟨matched,t⟩:=r
  cases matched with
  | true=>exact hreply
  | false=>exact hreply.tail (.go rfl rfl)
 | pong tok exp=>
  rw[handle]
  split
  ·exact .refl
  rename_i hexp
  obtain hsame|⟨p,l,hfind,hl,htell⟩:=dispatch_pong (P:=P)
   (m:={s with log:=s.log++[.received src id (.pong tok exp)]}) id tok exp [] s.plist
  ·rw[handleReply,hsame]
  rw[handleReply,htell]
  refine .trans (.single ?_) (edits_tell fun _ _ k hk b=>?_)
  ·exact .frame rfl rfl rfl rfl rfl hl
  exact .ponged rfl (Bool.eq_false_iff.2 hexp) hfind hk rfl rfl
 | findnode target exp=>
  rw[handle]
  split
  ·exact .refl
  rename_i hexp
  split
  ·exact .refl
  rename_i hnode
  refine edits_sendNeighbors [] _ ⟨?_,fun n hn=>mem_closest hn⟩
  exact⟨now,id,mac,target,exp,rfl,Bool.eq_false_iff.2 hexp,hnode,rfl⟩
 | neighbors nodes exp=>
  rw[handle]
  split
  ·exact .refl
  have hneighbors:PacketType.neighbors≠.pong:=nofun
  exact edits_handleReply id _ hneighbors

lemma table_stuff:table (stuff P m n)=stuffed P (table m) n:=by
 have hiff:(n.id=P.self∨(m.buckets (P.logdist n.id)).any (·.node.id=n.id)=true∨
  bucketSize≤(m.buckets (P.logdist n.id)).length)↔(n.id=P.self∨
   n.id∈(table m (P.logdist n.id)).map Node.id∨bucketSize≤(table m (P.logdist n.id)).length):=by
  rw[any_iff_mem,table,length_map]
 unfold stuff stuffed
 dsimp only
 split
 ·rename_i h
  rw[if_pos (hiff.1 h)]
 rename_i h
 rw[if_neg (mt hiff.2 h),table_updateBucket,map_append]
 rfl

lemma edits_stuff(nodes:List (Node ι α)):Edits P s (.stuff nodes) s (nodes.foldl (stuff P) s):=by
 have hfold:∀m:Discovery ι α,∃B,nodes.foldl (stuff P) m={m with buckets:=B}∧
  table (nodes.foldl (stuff P) m)=nodes.foldl (stuffed P) (table m):=by
  induction nodes with
  | nil=>exact fun m=>⟨m.buckets,rfl,rfl⟩
  | cons n nodes ih=>
   intro m
   obtain⟨B,hB,htable⟩:=ih (stuff P m n)
   rw[foldl_cons,foldl_cons,hB,←table_stuff,←htable,hB]
   refine⟨B,?_,rfl⟩
   unfold stuff
   dsimp only
   split<;>rfl
 obtain⟨B,hB,htable⟩:=hfold s
 rw[hB]at htable ⊢
 exact .single (.turn rfl (htable ▸ .stuff nodes))

/-- Every action is a sequence of edits. -/
lemma edits_of_step [DecidableEq α](h:step P s a=some t):Edits P s a s t:=by
 cases a with
 | packet now src id mac p=>
  cases h
  exact edits_handle
 | bond n=>
  cases h
  exact .single (.go rfl rfl)
 | begin k now=>
  obtain⟨b,hb,h⟩:=bind_eq_some_iff.1 h
  obtain⟨-,h⟩:=ite_none_right_eq_some.1 h
  cases h
  exact edits_beginBond now hb
 | takeSlot k hash=>
  obtain⟨b,hb,h⟩:=bind_eq_some_iff.1 h
  obtain⟨-,h⟩:=ite_none_right_eq_some.1 h
  cases h
  have hset:Edit P s (.takeSlot k hash) s (setBond k {b with pc:=.pinging} s):=
   .bond hb (.blank (.inl rfl) ⟨nofun,nofun,nofun⟩ nofun)
  have hslot:Edit P s (.takeSlot k hash) _ {setBond k {b with pc:=.pinging} s with slots:=s.slots-1}:=
   .frame (m:=setBond k {b with pc:=.pinging} s) rfl rfl rfl rfl rfl (Subset.refl _)
  refine .head hset (.head hslot (.head (.wait (p:=⟨b.id,.pong,.bond k⟩) ?_)
   (.single (.log (e:=.sent b.addr (.ping hash)) fun _ _=>nofun))))
  intro j hj
  cases hj
  exact⟨_,getElem?_set_self (List.getElem?_eq_some_iff.1 hb).1,rfl⟩
 | resume k now=>
  obtain⟨b,hb,h⟩:=bind_eq_some_iff.1 h
  exact edits_resumeBond hb h
 | join k=>
  obtain⟨b,hb,h⟩:=bind_eq_some_iff.1 h
  split at h
  ·rename_i j _
   obtain⟨w,n,hw,hn,rfl⟩:=of_moved h
   refine .single (.bond hb (.blank (.inl rfl) ⟨nofun,nofun,nofun⟩ fun x hx=>?_))
   exact⟨w,mem_of_getElem? hw,hn.trans hx⟩
  cases h
 | finish k hash=>
  obtain⟨b,hb,h⟩:=bind_eq_some_iff.1 h
  split at h<;>cases h
  rename_i n hpc
  exact edits_finishBond hb hpc
 | evict k now=>
  obtain⟨e,he,h⟩:=bind_eq_some_iff.1 h
  exact edits_endEviction he h
 | query n target=>
  cases h
  have hquery:Edit P s (.query n target) s {s with queries:=s.queries++[⟨n,0,[],.awaited⟩]}:=
   .frame rfl rfl rfl rfl rfl (Subset.refl _)
  exact .head hquery (.head (.wait (p:=⟨n.id,.neighbors,.query s.queries.length⟩) nofun)
   (.single (.log (e:=.sent n.addr (.findnode target)) fun _ _=>nofun)))
 | queried k=>
  obtain⟨q,-,h⟩:=bind_eq_some_iff.1 h
  exact edits_endQuery h
 | timeout j=>
  obtain⟨p,-,rfl⟩:=map_eq_some_iff.1 h
  refine .trans (.single ?_) (edits_tell fun _ hanswered=>absurd hanswered nofun)
  exact .frame rfl rfl rfl rfl rfl (eraseIdx_subset)
 | expire id now=>
  obtain⟨-,h⟩:=ite_none_right_eq_some.1 h
  cases h
  exact .single (.record nofun)
 | stuff nodes=>
  cases h
  exact edits_stuff nodes
 | restart=>
  cases h
  exact .single (.restart rfl)

/-- The table after an action. -/
lemma turn_of_step [DecidableEq α](h:step P s a=some t):table t=table s∨Turn P s a (table t):=by
 have hedits:=edits_of_step h
 clear h
 induction hedits with
 | refl=>exact .inl rfl
 | tail _ hedit ih=>
  cases hedit with
  | quiet hq=>
   rw[hq.table]
   exact ih
  | turn hm hturn=>exact .inr hturn
  | restart ha=>
   subst ha
   exact .inr .restart
  | _=>exact ih

end GoCoupe.DiscoveryMoves
