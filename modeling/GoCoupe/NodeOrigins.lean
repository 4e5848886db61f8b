import GoCoupe.DiscoveryAmplification
import GoCoupe.TableLookup

/-!
# Where the nodes of the discovery table come from

A node comes into the database and the table only through a bonding process whose ping a pong of
its identity has answered. The local identity is bonded with like any other: when pongs of its own
are sent back to it, the local node is in its own table.
-/

namespace GoCoupe.NodeOrigins
open GuardedRuns DiscoveryBonding DiscoveryMoves List Option Function

variable {ι α:Type}

/-- The nodes that a bonding process has found or made have the property. -/
structure Vetted (Q:Node ι α→Prop) (b:Bond ι α):Prop where
 known:∀n,b.known=some n→Q n
 result:∀n,b.pc.result=some (some n)→Q n
 past:Past b→Q (made b)

/-- All nodes that the state speaks of, other than those that others name, have the property. -/
structure Clean (Q:Node ι α→Prop) (s:Discovery ι α):Prop where
 db:∀id n,(s.db id).node=some n→Q n
 bonds:∀b∈s.bonds,Vetted Q b
 evictions:∀e∈s.evictions,Q e.new
 table:∀i,∀n∈table s i,Q n
 linked:∀p∈s.plist,∀k,p.owner=.bond k→∃b,s.bonds[k]?=some b ∧ b.id=p.id
 log:∀dst nodes,.sent dst (.neighbors nodes)∈s.log→∀n∈nodes,Q n

/-- The node that `bond` has returned. -/
def Returned (s:Discovery ι α) (n:Node ι α):Prop:=
 ∃b∈s.bonds,∃m,b.pc=.returned m ∧ m.or b.known=some n

variable {Q:Node ι α→Prop} {P:Params ι α} {s m t:Discovery ι α} {a:Action ι α}

lemma Vetted.or(h:Vetted Q b)(hr:b.pc.result=some r)(hn:r.or b.known=some n):Q n:=by
 cases r with
 | none=>exact h.known n hn
 | some x=>exact h.result n (hn▸hr)

lemma Clean.returned(h:Clean Q s)(hn:Returned s n):Q n:=by
 obtain⟨b,hb,r,hpc,hn⟩:=hn
 exact (h.bonds b hb).or (by rw[hpc];rfl) hn

/-- What has to be known of the nodes that an action brings in. -/
def Vouched (P:Params ι α) (Q:Node ι α→Prop) (s:Discovery ι α):Action ι α→Prop
 | .packet now _ id _ (.pong _ exp)=>expired now exp=false→∀b∈s.bonds,b.id=id→Q (made b)
 | .stuff nodes=>∀n∈nodes,n.id≠P.self→Q n
 | _=>True

variable [DecidableEq ι]

variable [DecidableEq α]

open DiscoveryAmplification (sampleParams)

end GoCoupe.NodeOrigins
