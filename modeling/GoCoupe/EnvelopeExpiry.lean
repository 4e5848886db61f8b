import GoCoupe.GuardedRuns
import GoCoupe.MapIteration
import GoCoupe.WhisperEnvelopes

/-!
# Expiry of whisper envelopes

Runs of `add` and `expire` in `whisper/whisper.go`. An envelope that is received again after its
expiry is not in the pool any more, so it is pooled and posted once more.
-/

namespace GoCoupe.EnvelopeExpiry
open GuardedRuns MapIteration WhisperEnvelopes List Option AList

variable {Priv Pub Rand:Type}

/-- The node, the hash and expiry of each envelope posted, and the end of the times that `expire`
was called at. -/
structure Pool (Priv:Type) where
 node:Node Priv
 posted:List (Hash × BitVec 32)
 horizon:ℕ

def start (keys:List Priv) (watchers:List Filterer):Pool Priv:=⟨⟨keys,∅,∅,watchers⟩,[],0⟩

/-- `expire` is called at a time in seconds, of which it sees 32 bits. -/
inductive Call where
 | add (e:Envelope)
 | expire (t:ℕ)

def step (P:Primitives Priv Pub Rand) (s:Pool Priv):Call→Option (Pool Priv)
 | .add e=>(add P s.node e).map fun r=>
  {s with node:=r.1,posted:=if r.2 then s.posted++[(e.hash P,e.expiry)] else s.posted}
 | .expire t=>
  if s.horizon≤t+1 then some {s with node:=expire (.ofNat 32 t) s.node,horizon:=t+1} else none

/-- The hashes in the expiration set of a time. -/
def due (node:Node Priv) (x:BitVec 32):List Hash:=(node.expirations.lookup x).getD []

/-- An envelope with the hash and the expiry is in the pool. -/
def Pooled (node:Node Priv) (h:Hash) (x:BitVec 32):Prop:=
 ∃e,node.messages.lookup h=some e ∧ e.expiry=x

structure Sound (s:Pool Priv):Prop where
 indexed:∀h x,h∈due s.node x ↔ Pooled s.node h x
 once:s.posted.Nodup
 forgotten:∀h x,Pooled s.node h x→s.horizon≤x.toNat

/-- An envelope is not added after its expiry, and no expiry is hidden by the bits of the time
that are cut off. -/
def Timely (P:Primitives Priv Pub Rand) (s:Pool Priv):Call→Prop
 | .add e=>e.hash P∈s.node.messages ∨ s.horizon≤e.expiry.toNat
 | .expire t=>∀h x,Pooled s.node h x→x.toNat≤t→x≤.ofNat 32 t

/-- What holds in every run: the two indices agree, and what was posted is pooled or expired. -/
structure Indexed (s:Pool Priv):Prop where
 indexed:∀h x,h∈due s.node x ↔ Pooled s.node h x
 posted:∀h x,(h,x)∈s.posted→x.toNat < s.horizon ∨ Pooled s.node h x

variable {P:Primitives Priv Pub Rand} {s m:Pool Priv} {node:Node Priv} {e:Envelope} {a:Call}

lemma lookup_cleared(l:List (Σ _:BitVec 32,List Hash))(xs:GoMap (BitVec 32) (List Hash))
 (x:BitVec 32):(l.foldl (fun xs s=>xs.insert s.1 []) xs).lookup x =
  if x∈l.map Sigma.fst then some [] else xs.lookup x:=by
 induction l generalizing xs with
 | nil=>rfl
 | cons s l ih=>
  rw[foldl_cons,ih,map_cons]
  by_cases hx:x=s.1
  ·subst hx
   simp
  rw[lookup_insert_ne hx]
  simp only[mem_cons,hx,false_or]

lemma mem_due_expire(now x:BitVec 32)(h:Hash):h∈due (expire now node) x↔h∈due node x∧¬x≤now:=by
 have hmem:x∈(node.expirations.entries.filter (·.1≤now)).map Sigma.fst↔
  (node.expirations.lookup x).isSome∧x≤now:=by
  rw[AList.lookup_isSome,AList.mem_keys,AList.keys]
  simp[List.keys]
 rw[due,due,expire,lookup_cleared]
 by_cases hx:x≤now
 ·by_cases hs:(node.expirations.lookup x).isSome
  ·simp[hmem,hx,hs]
  simp[hmem,hx,Option.not_isSome_iff_eq_none.1 hs]
 simp[hmem,hx]

lemma mem_due_iff:h∈due node x↔∃hs,⟨x,hs⟩∈node.expirations.entries∧h∈hs:=by
 simp only[←mem_lookup_iff,due]
 cases node.expirations.lookup x<;>simp

lemma pooled_expire(hidx:∀h x,h∈due node x↔Pooled node h x)(now x:BitVec 32)(h:Hash):
 Pooled (expire now node) h x↔Pooled node h x∧¬x≤now:=by
 have hstale:h∈(node.expirations.entries.filter (·.1≤now)).flatMap Sigma.snd↔
  ∃x≤now,Pooled node h x:=by
  simp only[←hidx,mem_due_iff,mem_flatMap,mem_filter,decide_eq_true_eq,Sigma.exists]
  tauto
 have hmessages:(expire now node).messages =
  eraseAll node.messages ((node.expirations.entries.filter (·.1≤now)).flatMap Sigma.snd):=
  (foldl_flatMap ..).symm
 simp only[Pooled,hmessages,lookup_eraseAll,hstale]
 constructor
 ·rintro⟨e,he,rfl⟩
  split at he
  ·cases he
  rename_i hout
  exact⟨⟨e,he,rfl⟩,fun hnow=>hout ⟨_,hnow,e,he,rfl⟩⟩
 rintro⟨⟨e,he,rfl⟩,hnow⟩
 refine⟨e,?_,rfl⟩
 rwa[if_neg]
 rintro⟨x,hx,e',he',rfl⟩
 exact hnow (some.inj (he'.symm.trans he)▸hx)

/-- An envelope that is not pooled is pooled, filed under its expiry and posted. -/
lemma add_spec(hidx:∀h x,h∈due node x↔Pooled node h x)
 (h:add P node e=some r):e.hash P∈node.messages∧r=(node,false)∨
  e.hash P∉node.messages∧r.2=true∧∀h x,(h∈due r.1 x↔h=e.hash P∧x=e.expiry∨h∈due node x)∧
   (Pooled r.1 h x↔h=e.hash P∧x=e.expiry∨Pooled node h x):=by
 unfold add at h
 dsimp only at h
 split at h
 ·rename_i hin
  exact .inl ⟨hin,(some.inj h).symm⟩
 rename_i hin
 have hnone:=lookup_eq_none.2 hin
 have hsets:∀x,((if e.expiry∈node.expirations then node.expirations
  else node.expirations.insert e.expiry []).lookup x).getD []=due node x:=by
  intro x
  split
  ·rfl
  rename_i hexp
  by_cases hx:x=e.expiry
  ·rw[due,hx,lookup_insert,lookup_eq_none.2 hexp]
   rfl
  rw[lookup_insert_ne hx,due]
 obtain⟨hashes,hlook,rfl⟩:=map_eq_some_iff.1 h
 have hdue:hashes=due node e.expiry:=by rw[←hsets,hlook,getD_some]
 have hnew:e.hash P∉hashes:=by simp[hdue,hidx,Pooled,hnone]
 refine .inr ⟨hin,by simp[hnew],fun h x=>⟨?_,?_⟩⟩
 ·rw[due,if_neg hnew]
  by_cases hx:x=e.expiry
  ·rw[hx,lookup_insert,getD_some,mem_cons,hdue]
   simp
  rw[lookup_insert_ne hx,hsets]
  simp[hx]
 by_cases hh:h=e.hash P
 ·subst hh
  simp[Pooled,hnone,eq_comm]
 simp[Pooled,hh,lookup_insert_ne]

lemma indexed_step(h:Indexed s)(hstep:step P s a=some m):Indexed m:=by
 cases a with
 | add e=>
  obtain⟨r,hadd,rfl⟩:=map_eq_some_iff.1 hstep
  obtain⟨hin,rfl⟩|⟨hin,hr,hspec⟩:=add_spec h.indexed hadd
  ·exact⟨h.indexed,h.posted⟩
  constructor
  ·intro k x
   rw[(hspec k x).1,(hspec k x).2,h.indexed]
  intro k x hk
  simp only[hr,if_true,mem_append,mem_singleton,Prod.mk.injEq]at hk
  rw[(hspec k x).2]
  obtain hk|hk:=hk
  ·exact (h.posted k x hk).imp_right .inr
  exact .inr (.inl hk)
 | expire t=>
  obtain⟨ht,rfl⟩:=of_guarded hstep
  constructor
  ·intro k x
   rw[mem_due_expire,pooled_expire h.indexed,h.indexed]
  intro k x hk
  rw[pooled_expire h.indexed]
  by_cases hx:x≤.ofNat 32 t
  ·have hmod:=Nat.mod_le t (2^32)
   have hle:x.toNat≤t%2^32:=by simpa[BitVec.le_def]using hx
   exact .inl (by dsimp only;omega)
  exact (h.posted k x hk).imp (lt_of_lt_of_le · ht) (⟨·,hx⟩)

/-- Whether a call pools an expired envelope, or leaves one there, decides what it keeps. -/
lemma sound_step_iff(h:Indexed s)(hs:Sound s)(hstep:step P s a=some m):Sound m↔Timely P s a:=by
 have hm:=indexed_step h hstep
 cases a with
 | add e=>
  obtain⟨r,hadd,rfl⟩:=map_eq_some_iff.1 hstep
  obtain⟨hin,rfl⟩|⟨hin,hr,hspec⟩:=add_spec h.indexed hadd
  ·exact iff_of_true ⟨hs.indexed,hs.once,hs.forgotten⟩ (.inl hin)
  constructor
  ·exact fun hsound=>.inr (hsound.forgotten _ _ ((hspec _ _).2.2 (.inl ⟨rfl,rfl⟩)))
  intro htimely
  have hlate:=htimely.resolve_left hin
  refine⟨hm.indexed,?_,fun k x hk=>?_⟩
  ·simp only[hr,if_true]
   refine nodup_append.2 ⟨hs.once,nodup_singleton _,?_⟩
   rintro⟨k,x⟩ hk y hy rfl
   obtain⟨rfl,rfl⟩:=Prod.mk.inj (mem_singleton.1 hy)
   obtain hlt|⟨e',he',-⟩:=h.posted _ _ hk
   ·omega
   exact hin (lookup_isSome.1 (by simp[he']))
  obtain⟨rfl,rfl⟩|hk:=(hspec k x).2.1 hk
  ·exact hlate
  exact hs.forgotten k x hk
 | expire t=>
  obtain⟨ht,rfl⟩:=of_guarded hstep
  constructor
  ·intro hsound k x hk hle
   by_contra hx
   have:=hsound.forgotten k x ((pooled_expire h.indexed _ _ _).2 ⟨hk,hx⟩)
   dsimp only at this
   omega
  refine fun htimely=>⟨hm.indexed,hs.once,fun k x hk=>?_⟩
  obtain⟨hk,hx⟩:=(pooled_expire h.indexed _ _ _).1 hk
  by_contra hlt
  exact hx (htimely k x hk (by dsimp only at hlt;omega))

lemma sound_start(keys:List Priv)(watchers:List Filterer):Sound (start keys watchers):=
 ⟨fun h x=>by simp[start,due,Pooled],nodup_nil,fun h x hk=>by simp[start,Pooled]at hk⟩

/-- The indices agree, nothing is posted twice and what has expired stays away throughout a run
exactly if every call is timely. -/
theorem expired_for_good_iff (P : Primitives Priv Pub Rand) (keys : List Priv)
    (watchers : List Filterer) {calls : List Call} {t : Pool Priv}
    (h : exec (step P) (start keys watchers) calls = some t) :
    Throughout (step P) Sound (start keys watchers) calls ↔
      Careful (step P) (Timely P) (start keys watchers) calls := by
 have hstart:=sound_start keys watchers
 have hidx:Indexed (start keys watchers):=⟨hstart.indexed,nofun⟩
 have hiff:=@throughout_iff_careful _ _ (step P) Indexed (¬Sound ·) (Timely P)
  (fun _ _ _=>indexed_step)
  (fun _ _ _ hs hgood hm=>not_not.trans (sound_step_iff hs (not_not.1 hgood) hm))
  _ _ _ h hidx (not_not.2 hstart)
 simpa only[not_not] using hiff

def late:Envelope:=⟨5,1,[],[],0,7⟩

theorem expired_for_good_kept :
    Throughout (step twoKeys) Sound (start [] []) [.add late, .expire 10] := by
 refine (expired_for_good_iff twoKeys [] [] rfl).2 ⟨.inr (Nat.zero_le _),fun m hm=>?_⟩
 obtain rfl:=some.inj hm
 refine⟨fun h x hk hx=>?_,fun m hm=>trivial⟩
 simp[BitVec.le_def]
 omega

/-- An envelope comes again after it expired: it is pooled and posted a second time. -/
theorem posted_twice :
    (exec (step twoKeys) (start [] []) [.add late, .expire 10, .add late]).map
      (fun s => (s.posted, due s.node 5, s.horizon)) = some ([(7, 5), (7, 5)], [7], 11) := by
 decide +kernel

end GoCoupe.EnvelopeExpiry
