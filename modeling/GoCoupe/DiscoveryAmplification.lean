import GoCoupe.DiscoveryMoves

/-!
# Where neighbors packets are sent

A pong is matched by identity and packet type only, and a query by identity. Neighbors packets
go only to addresses that have answered a ping when pongs come from the pinged address with its
token and queries from the address of the record. Without either they go anywhere.
-/

namespace GoCoupe.DiscoveryAmplification
open GuardedRuns DiscoveryBonding DiscoveryMoves List Option

variable {ι α:Type}

section Logs

/-- A ping was sent to the address, and later a pong with its hash came from there. -/
def Proven (log:List (Event ι α)) (addr:α):Prop:=
 ∃before tok after,log=before++.sent addr (.ping tok)::after ∧
  ∃id exp,.received addr id (.pong tok exp)∈after

/-- Neighbors packets are sent only to addresses that have answered a ping before. -/
def NoAmplification (log:List (Event ι α)):Prop:=
 ∀before addr nodes after,log=before++.sent addr (.neighbors nodes)::after→Proven before addr

variable {addr:α} {log:List (Event ι α)}

lemma Proven.append(h:Proven log addr)(more:List (Event ι α)):Proven (log++more) addr:=by
 obtain⟨before,tok,after,rfl,id,exp,hmem⟩:=h
 exact⟨before,tok,after++more,by simp,id,exp,mem_append_left _ hmem⟩

lemma proven_of_pong{tok:List UInt8}{id:ι}{exp:UInt64}(h:.sent addr (.ping tok)∈log):
 Proven (log++[.received addr id (.pong tok exp)]) addr:=by
 obtain⟨before,after,rfl⟩:=append_of_mem h
 exact⟨before,tok,after++[.received addr id (.pong tok exp)],by simp,id,exp,by simp⟩

lemma Proven.mem(h:Proven log addr):
 ∃tok id exp,.sent addr (.ping tok)∈log∧.received addr id (.pong tok exp)∈log:=by
 obtain⟨before,tok,after,rfl,id,exp,hmem⟩:=h
 exact⟨tok,id,exp,by simp,by simp[hmem]⟩

lemma noAmplification_nil:NoAmplification ([]:List (Event ι α)):=by
 intro before addr nodes after h
 simp at h

lemma NoAmplification.concat(h:NoAmplification log)
 (he:∀addr nodes,e=.sent addr (.neighbors nodes)→Proven log addr):
 NoAmplification (log++[e]):=by
 intro before addr nodes after heq
 cases after using List.reverseRecOn with
 | nil=>
  obtain⟨rfl,hlast⟩:=append_inj' heq rfl
  exact he addr nodes (singleton_inj.1 hlast)
 | append_singleton after x=>
  rw[←cons_append,←append_assoc]at heq
  exact h before addr nodes after (append_inj' heq rfl).1

end Logs

/-- Every address in the database, and every address of a bonding process whose ping has been
answered, is proven. -/
structure Honest (s:Discovery ι α):Prop where
 known:∀id n,(s.db id).node=some n→Proven s.log n.addr
 past:∀b∈s.bonds,Past b→Proven s.log b.addr
 clean:NoAmplification s.log

lemma honest_fresh:Honest (fresh ι α):=
 ⟨fun _ _=>nofun,fun _ hb=>absurd hb not_mem_nil,noAmplification_nil⟩

variable [DecidableEq ι]

/-- A bonding process has pinged the address, to which a ping with the hash was sent. -/
def Pinged (s:Discovery ι α) (src:α) (tok:Bytes):Owner→Prop
 | .bond k=>∀b∈s.bonds[k]?,b.addr=src ∧ .sent src (.ping tok)∈s.log
 | _=>True

/-- A pong that ends a bonding ping comes from the pinged address with the token of a ping that
was sent there, and a query of a known identity comes from the address of its record. -/
def Prudent (s:Discovery ι α):Action ι α→Prop
 | .packet now src id _ (.pong tok exp)=>expired now exp=false →
  ∀p∈s.plist.find? (fun p=>p.id=id ∧ p.ptype=.pong),Pinged s src tok p.owner
 | .packet now src id _ (.findnode _ exp)=>expired now exp=false→∀n∈(s.db id).node,n.addr=src
 | _=>True

instance pinged_decidable [DecidableEq α] (s:Discovery ι α) (src:α) (tok:Bytes):
 ∀o,Decidable (Pinged s src tok o)
 | .bond k=>inferInstanceAs
  (Decidable (∀b∈s.bonds[k]?,b.addr=src ∧ .sent src (.ping tok)∈s.log))
 | .eviction _ | .query _=>.isTrue trivial

instance prudent_decidable [DecidableEq α] (s:Discovery ι α):∀a,Decidable (Prudent s a)
 | .packet now src id _ (.pong tok exp)=>inferInstanceAs (Decidable (expired now exp=false →
  ∀p∈s.plist.find? (fun p=>p.id=id ∧ p.ptype=.pong),Pinged s src tok p.owner))
 | .packet now src id _ (.findnode _ exp)=>inferInstanceAs (Decidable (expired now exp=false →
  ∀n∈(s.db id).node,n.addr=src))
 | .packet _ _ _ _ (.ping _ _) | .packet _ _ _ _ (.neighbors _ _) | .bond _ | .begin _ _
 | .takeSlot _ _ | .resume _ _ | .join _ | .finish _ _ | .evict _ _ | .query _ _ | .queried _
 | .timeout _ | .expire _ _ | .stuff _ | .restart=>.isTrue trivial

variable {P:Params ι α} {s m t:Discovery ι α} {a:Action ι α}

/-- A process is told of a pong only when its address is proven. -/
lemma proven_of_advance{k:ℕ}{b b':Bond ι α}(h:Honest m)(hok:Prudent s a)
 (hb:m.bonds[k]?=some b)(hadvance:Advance s a m k b b')(hpast:Past b'):
 Proven m.log b'.addr:=by
 have hold:Past b→Proven m.log b.addr:=h.past b (mem_of_getElem? hb)
 cases hadvance with
 | same=>exact hold hpast
 | blank _ hpc=>exact (hpast.elim hpc.1 (·.elim hpc.2.1 hpc.2.2)).elim
 | past hb=>exact hold hb
 | ponged ha hexp hfind howner hlog hbonds=>
  subst ha
  have hpinged:=hok hexp _ hfind
  rw[howner]at hpinged
  obtain⟨haddr,hsent⟩:=hpinged b (hbonds▸hb)
  rw[hlog,haddr]
  exact proven_of_pong hsent
 | bonded hb=>exact hold hb

lemma honest_edit(h:Honest m)(hok:Prudent s a)(hedit:Edit P s a m t):Honest t:=by
 cases hedit with
 | quiet hq=>
  refine⟨fun id n hn=>?_,fun b hb=>?_,hq.log▸h.clean⟩
  ·rw[hq.log]
   exact h.known id n (hq.db id▸hn)
  rw[hq.log]
  exact h.past b (hq.bonds▸hb)
 | log he=>
  refine⟨fun id n hn=>(h.known id n hn).append _,fun b hb hpast=>(h.past b hb hpast).append _,
   h.clean.concat fun dst nodes heq=>?_⟩
  obtain⟨⟨now,id,mac,target,exp,rfl,hexp,hnode,hdb⟩,-⟩:=he dst nodes heq
  obtain⟨n,hn⟩:=ne_none_iff_exists'.1 hnode
  exact hok hexp n hn▸h.known id n (hdb▸hn)
 | record hr=>
  refine⟨fun j n hn=>?_,h.past,h.clean⟩
  dsimp only at hn
  rw[Function.update_apply]at hn
  split at hn
  ·obtain⟨b,hb,hpast,rfl⟩:=hr n hn
   exact h.past b hb hpast
  exact h.known j n hn
 | bond hb hadvance=>
  have hproven:=proven_of_advance h hok hb hadvance
  refine⟨h.known,fun c hc hpast=>?_,h.clean⟩
  obtain hc|rfl:=mem_or_eq_of_mem_set hc
  ·exact h.past c hc hpast
  exact hproven hpast
 | go hpc=>
  refine⟨h.known,fun c hc hpast=>?_,h.clean⟩
  obtain hc|hc:=mem_append.1 hc
  ·exact h.past c hc hpast
  rw[mem_singleton.1 hc,Past,hpc]at hpast
  exact (hpast.elim nofun (·.elim nofun nofun):False).elim
 | restart=>exact⟨h.known,fun _ hb=>absurd hb not_mem_nil,h.clean⟩
 | wait | contest | turn=>exact⟨h.known,h.past,h.clean⟩

variable [DecidableEq α]

lemma honest_step(h:Honest s)(hok:Prudent s a)(hstep:step P s a=some t):Honest t:=by
 have hedits:=edits_of_step hstep
 clear hstep
 induction hedits with
 | refl=>exact h
 | tail _ hedit ih=>exact honest_edit ih hok hedit

/-- In a run whose steps are all prudent neighbors packets go only to addresses from which a pong
with the hash of a ping that was sent there has come before. -/
theorem no_amplification_of_prudent {actions : List (Action ι α)}
    (hrun : exec (step P) (fresh ι α) actions = some t)
    (hok : Careful (step P) Prudent (fresh ι α) actions) : NoAmplification t.log :=
 (careful_invariant (fun _ _ _ h hok hstep=>honest_step h hok hstep) honest_fresh hrun hok).clean

/-- Identities and addresses are numbers, and each identity has a bucket of its own. -/
def sampleParams:Params ℕ ℕ:=⟨0,id,fun _ a b=>compare a b,fun _=>true,12⟩

/-- Identity 1 bonds: its ping from `bondAddr` is answered by a ping, which it answers. -/
def bondedBy (bondAddr:ℕ) (tok:Bytes):List (DiscoveryBonding.Action ℕ ℕ):=
 [.packet 0 bondAddr 1 [] (.ping 0 100),.begin 0 0,.takeSlot 0 [7],
  .packet 0 bondAddr 1 [] (.pong tok 100),.resume 0 0,.finish 0 []]

def queriedFrom (bondAddr queryAddr:ℕ) (tok:Bytes):List (DiscoveryBonding.Action ℕ ℕ):=
 bondedBy bondAddr tok++[.packet 0 queryAddr 1 [] (.findnode 5 100)]

def queryLog (bondAddr queryAddr:ℕ) (tok:Bytes):List (Event ℕ ℕ):=
 [.received bondAddr 1 (.ping 0 100),.sent bondAddr (.pong []),.sent bondAddr (.ping [7]),
  .received bondAddr 1 (.pong tok 100),.received queryAddr 1 (.findnode 5 100)]

def queriedLog (bondAddr queryAddr:ℕ) (tok:Bytes):List (Event ℕ ℕ):=
 queryLog bondAddr queryAddr tok++[.sent queryAddr (.neighbors [⟨1,bondAddr,0⟩])]

theorem no_amplification_honest : ∃ t,
    exec (step sampleParams) (fresh ℕ ℕ) (queriedFrom 10 10 [7]) = some t ∧
      t.log = queriedLog 10 10 [7] ∧ NoAmplification t.log := by
 have hlog:(exec (step sampleParams) (fresh ℕ ℕ) (queriedFrom 10 10 [7])).map (·.log) =
  some (queriedLog 10 10 [7]):=by decide +kernel
 obtain⟨t,hrun,hlog⟩:=map_eq_some_iff.1 hlog
 exact⟨t,hrun,hlog,no_amplification_of_prudent hrun (by decide +kernel)⟩

/-- The answer goes to an address that has not answered a ping. -/
lemma not_noAmplification_queriedLog
 (h:bondAddr≠queryAddr∨tok≠[7]):¬NoAmplification (queriedLog bondAddr queryAddr tok):=by
 intro hclean
 obtain⟨tok',id,exp,hsent,hreceived⟩:=(hclean _ _ _ [] rfl).mem
 simp only[queryLog,mem_cons,reduceCtorEq,Event.sent.injEq,Sent.ping.injEq,and_false,
  not_mem_nil,or_false,false_or]at hsent
 simp only[queryLog,mem_cons,reduceCtorEq,Event.received.injEq,Packet.pong.injEq,
  and_false,not_mem_nil,or_false,false_or]at hreceived
 obtain⟨rfl,rfl⟩:=hsent
 obtain⟨-,-,rfl,-⟩:=hreceived
 exact h.elim (· rfl) (· rfl)

/-- An identity that has bonded from its own address forges the source of a query, and one that
cannot read the ping to a forged address answers it blindly. -/
theorem amplification_by_forgery :
    (∃ t, exec (step sampleParams) (fresh ℕ ℕ) (queriedFrom 10 99 [7]) = some t ∧
      ¬NoAmplification t.log) ∧
    ∃ t, exec (step sampleParams) (fresh ℕ ℕ) (queriedFrom 99 99 []) = some t ∧
      ¬NoAmplification t.log := by
 have hquery:(exec (step sampleParams) (fresh ℕ ℕ) (queriedFrom 10 99 [7])).map (·.log) =
  some (queriedLog 10 99 [7]):=by decide +kernel
 have hpong:(exec (step sampleParams) (fresh ℕ ℕ) (queriedFrom 99 99 [])).map (·.log) =
  some (queriedLog 99 99 []):=by decide +kernel
 obtain⟨t,hrun,hlog⟩:=map_eq_some_iff.1 hquery
 obtain⟨u,hrun',hlog'⟩:=map_eq_some_iff.1 hpong
 refine⟨⟨t,hrun,?_⟩,⟨u,hrun',?_⟩⟩
 · rw[hlog]
   exact not_noAmplification_queriedLog (.inl (by decide))
 rw[hlog']
 exact not_noAmplification_queriedLog (.inr (by decide))

end GoCoupe.DiscoveryAmplification
