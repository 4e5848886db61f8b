import GoCoupe.FetcherMoves
import Mathlib.Logic.Function.Defs

/-!
# Which peers the block fetcher drops

A peer that announces and sends valid blocks is not dropped for a block. It is dropped for a
number when it announced over the old protocol, which has none, and the header arrives from
another peer while the fetcher waits for the block.
-/

namespace GoCoupe.FetcherBlame
open GuardedRuns MapIteration BlockFetching FetcherMoves List Function

variable {W H ι Hd T:Type}

section Peers

variable (P:Params W H Hd T)

/-- The validator accepts the header after the parent it names, now or later. -/
def Valid (header:Hd):Prop:=
 ∀world parent,P.hash parent=P.parentHash header→P.validateBlock world header parent≠.invalid

/-- The hash is that of a valid block, and the number is its own or none. -/
def Real (hash:H) (number:UInt64):Prop:=
 ∃header,P.hash header=hash ∧ Valid P header ∧ (number=P.number header ∨ number=0)

/-- The peer announces hashes of valid blocks, with the true number when the message has numbers,
and sends valid blocks. -/
def Honest (p:ι):Action W H ι Hd T→Prop
 | .newBlockHashes peer (.hashes l) _=>
  peer=p→∀hash∈l,∃header,P.hash header=hash ∧ Valid P header
 | .newBlockHashes peer (.blocks l) _=>peer=p→∀b∈l,∃header,
  P.hash header=b.1 ∧ Valid P header ∧ b.2=P.number header
 | .newBlock peer block=>peer=p→Valid P block.header
 | _=>True

variable {P} in
lemma Real.valid(hinj:Injective P.hash)
 (h:Real P (P.hash header) number):Valid P header∧(number=P.number header∨number=0):=by
 obtain⟨header',hhash,hvalid⟩:=h
 exact hinj hhash▸hvalid

variable {P} {p:ι} in
/-- What an honest peer announces is real. -/
lemma real_of_honest
 (h:Honest P p (.newBlockHashes peer message known:Action W H ι Hd T))(hpeer:peer=p)
 (hb:b∈message.announces):Real P b.1 b.2:=by
 cases message with
 | hashes l=>
  obtain⟨hash,hhash,rfl⟩:=List.mem_map.1 hb
  obtain⟨header,hheader,hvalid⟩:=h hpeer hash hhash
  exact⟨header,hheader,hvalid,.inr rfl⟩
 | blocks l=>
  obtain⟨header,hheader,hvalid,hnumber⟩:=h hpeer b hb
  exact⟨header,hheader,hvalid,.inl hnumber⟩

variable [DecidableEq H]

/-- No header with a number arrives while it is requested on an announcement of the peer that has
none. -/
def Unblamed (p:ι) (s:Fetcher H ι Hd T):Action W H ι Hd T→Prop
 | .event (.headers _ batch _)=>∀b∈batch,∀a∈requested (P.hash b.1) s,
  a.origin=p→a.number=0→P.number b.1=0
 | _=>True

structure Sincere (p:ι) (s:Fetcher H ι Hd T):Prop where
 traces:∀hash,∀a∈traces hash s,a.origin=p→Real P hash a.number
 notifying:∀n∈s.notifying,n.1=p→Real P n.2.1 n.2.2
 injecting:∀op∈s.injecting,op.origin=p→Valid P op.block.header
 queue:∀op∈s.queue,op.origin=p→Valid P op.block.header
 inserting:∀op∈s.inserting,op.origin=p→Valid P op.block.header
 undropped:p∉s.dropped

variable {P} {p:ι} {s t:Fetcher H ι Hd T}

lemma sincere_new:Sincere P p (new H ι Hd T):=
 ⟨fun _ _ ha=>absurd ha not_mem_nil,fun _ hn=>absurd hn not_mem_nil,
  fun _ hop=>absurd hop not_mem_nil,fun _ hop=>absurd hop not_mem_nil,
  fun _ hop=>absurd hop not_mem_nil,not_mem_nil⟩

/-- One more announcement is held, which is real. -/
lemma Sincere.hold(h:Sincere P p s)(a:Announce H ι Hd){hash:H}
 (hreal:a.origin=p→Real P hash a.number)
 (htraces:∀k,∀b∈BlockFetching.traces k t,b∈BlockFetching.traces k s∨(k=hash∧b=a))
 (hrest:t.notifying⊆s.notifying∧(t.injecting,t.queue,t.inserting,t.dropped) =
  (s.injecting,s.queue,s.inserting,s.dropped)):Sincere P p t:=by
 simp only[Prod.mk.injEq]at hrest
 obtain⟨hnotifying,hinjecting,hqueue,hinserting,hdropped⟩:=hrest
 refine⟨fun k b hb horigin=>?_,fun n hn=>h.notifying n (hnotifying hn),hinjecting▸h.injecting,
  hqueue▸h.queue,hinserting▸h.inserting,hdropped▸h.undropped⟩
 obtain hb|⟨rfl,rfl⟩:=htraces k b hb
 ·exact h.traces k b hb horigin
 exact hreal horigin

end Peers

variable [DecidableEq H] [DecidableEq ι] {P:Params W H Hd T} {p:ι} {s₀ s t:Fetcher H ι Hd T}
 {act:Action W H ι Hd T} {g g':List (Announce H ι Hd)}

lemma mem_traces_forgetHash{hash k:H}{a:Announce H ι Hd}
 (h:a∈traces k (forgetHash hash s)):a∈traces k s:=by
 have hne:k≠hash:=by
  rintro rfl
  simp[mem_traces,forgetHash]at h
 rw[mem_traces]at h
 simp only[forgetHash,AList.lookup_erase_ne hne]at h
 exact mem_traces.2 h

lemma sincere_forgetHash(h:Sincere P p s)(hash:H):Sincere P p (forgetHash hash s):=
 ⟨fun k a ha=>h.traces k a (mem_traces_forgetHash ha),h.notifying,h.injecting,h.queue,
  h.inserting,h.undropped⟩

omit [DecidableEq ι] in
/-- An honest peer is not blamed in a step without a header that blames it. -/
lemma not_blamed(hinj:Injective P.hash)(hs:Sincere P p s)
 (hok:Unblamed P p s act):¬Blamed P s act p:=by
 rintro (⟨op,hop,parent,world,horigin,hparent,hinvalid⟩ |
  ⟨time,batch,heights,rfl,b,hb,a,ha,horigin,hnumber⟩)
 ·exact hs.inserting op hop horigin world parent hparent hinvalid
 have hreal:=hs.traces _ a (fetching_mem _ _ _ (requested_eq_some ha).1) horigin
 obtain heq|hzero:=(hreal.valid hinj).2
 ·exact hnumber heq.symm
 exact hnumber ((hok b hb a ha horigin hzero).trans hzero.symm)

/-- The headers that have arrived are of blocks that were really announced. -/
structure Sincerely (P:Params W H Hd T) (p:ι) (s:Fetcher H ι Hd T) (g:List (Announce H ι Hd)) :
 Prop extends Sincere P p s where
 arrived:∀a∈g,∀header∈a.header,a.origin=p→Real P (P.hash header) a.number

lemma sincerely_edit(hinj:Injective P.hash)(hhonest:Honest P p act)
 (hblamed:¬Blamed P s₀ act p)(h:Sincerely P p s g)(he:Edit P s₀ act s g t g'):
 Sincerely P p t g':=by
 have hs:=h.toSincere
 cases he with
 | phase=>
  exact⟨⟨hs.traces,hs.notifying,hs.injecting,hs.queue,hs.inserting,hs.undropped⟩,h.arrived⟩
 | @message peer message known l hact hl=>
  subst hact
  refine⟨⟨hs.traces,fun n hn hpeer=>?_,hs.injecting,hs.queue,hs.inserting,hs.undropped⟩,h.arrived⟩
  obtain hn|hn:=mem_append.1 hn
  ·exact hs.notifying n hn hpeer
  exact real_of_honest hhonest ((hl n hn).1.symm.trans hpeer) (hl n hn).2
 | block hact=>
  subst hact
  refine⟨⟨hs.traces,hs.notifying,fun op hop hpeer=>?_,hs.queue,hs.inserting,hs.undropped⟩,h.arrived⟩
  obtain hop|hop:=mem_append.1 hop
  ·exact hs.injecting op hop hpeer
  rw[mem_singleton.1 hop]at hpeer ⊢
  exact hhonest hpeer
 | taken _ hnotifying hinjecting hqueue hinserting=>
  exact⟨⟨hs.traces,fun n hn=>hs.notifying n (hnotifying hn),
   fun op hop=>hs.injecting op (hinjecting hop),fun op hop=>hs.queue op (hqueue hop),
   fun op hop=>hs.inserting op (hinserting hop),hs.undropped⟩,h.arrived⟩
 | forget hash=>exact⟨sincere_forgetHash hs hash,h.arrived⟩
 | forgetBlock hash=>
  refine⟨?_,h.arrived⟩
  unfold forgetBlock
  split
  ·exact⟨hs.traces,hs.notifying,hs.injecting,hs.queue,hs.inserting,hs.undropped⟩
  exact hs
 | @notify n l now hn hl hcount=>
  refine⟨hs.hold ⟨n.2.1,n.2.2,none,now,n.1⟩ (hs.notifying n hn) (fun k b hb=>?_) ⟨hl,rfl⟩,h.arrived⟩
  rw[mem_traces]at hb ⊢
  obtain hb|hb:=hb
  ·exact (mem_append_cases hb).imp_left .inl
  exact .inl (.inr hb)
 | @pick visit look a hact hlook hknown hdue ha=>
  exact⟨(sincere_forgetHash hs look.hash).hold a (hs.traces _ a (mem_traces.2 (.inl ha)))
   (fun _ _=>traces_fetching) ⟨Subset.refl _,rfl⟩,h.arrived⟩
 | @move visit hash a hact ha=>
  have hreal:=hs.traces _ a (mem_traces.2 (.inr (.inr (.inl ha))))
  exact⟨(sincere_forgetHash hs hash).hold a hreal (fun _ _=>traces_completing)
   ⟨Subset.refl _,rfl⟩,h.arrived⟩
 | @receive time batch heights b a hact ha=>
  have hreal:=hs.traces _ a (fetching_mem _ _ _ (requested_eq_some ha).1)
  refine⟨hs.hold {a with header:=some b.1,time:=time} hreal (fun _ _=>traces_fetching)
   ⟨Subset.refl _,rfl⟩,fun c hc header hheader=>?_⟩
  obtain hc|hc:=mem_append.1 hc
  ·exact h.arrived c hc header hheader
  rw[mem_singleton.1 hc]at hheader ⊢
  exact Option.some.inj hheader▸hreal
 | finish ha hnew=>
  exact⟨hs.hold _ (hs.traces _ _ (fetching_mem _ _ _ ha)) (fun _ _=>traces_completing)
   ⟨Subset.refl _,rfl⟩,h.arrived⟩
 | schedule ha hheader=>
  refine⟨hs.hold _ (h.arrived _ ha _ hheader) (fun k b hb=>?_) ⟨Subset.refl _,rfl⟩,h.arrived⟩
  rw[mem_traces]at hb ⊢
  obtain hb|hb|hb|hb:=hb
  ·exact .inl (.inl hb)
  ·exact .inl (.inr (.inl hb))
  ·exact (mem_append_cases hb).imp_left (fun hb=>.inr (.inr (.inl hb)))
  exact .inl (.inr (.inr (.inr hb)))
 | @enqueue op l hl hop hcount hnew=>
  refine⟨⟨hs.traces,hs.notifying,fun op' hop'=>hs.injecting op' (hl hop'),
   fun op' hop' horigin=>?_,hs.inserting,hs.undropped⟩,h.arrived⟩
  obtain hop'|hop':=mem_append.1 hop'
  ·exact hs.queue op' hop' horigin
  rw[mem_singleton.1 hop']at horigin ⊢
  obtain hop|⟨a,ha,hpeer⟩:=hop
  ·exact hs.injecting op hop horigin
  exact ((hs.traces _ a ha (hpeer.trans horigin)).valid hinj).1
 | @pop op k hop=>
  refine⟨⟨hs.traces,hs.notifying,hs.injecting,fun op hop=>hs.queue op (mem_of_mem_eraseIdx hop),
   fun op' hop'=>?_,hs.undropped⟩,h.arrived⟩
  obtain hop'|hop':=mem_append.1 hop'
  ·exact hs.inserting op' hop'
  exact mem_singleton.1 hop'▸hs.queue op hop
 | drop hpeer=>
  refine⟨⟨hs.traces,hs.notifying,hs.injecting,hs.queue,hs.inserting,fun hmem=>?_⟩,h.arrived⟩
  obtain hmem|hmem:=mem_append.1 hmem
  ·exact hs.undropped hmem
  exact hblamed (mem_singleton.1 hmem▸hpeer)

lemma sincere_step(hinj:Injective P.hash)(hs:Sincere P p s)
 (hhonest:Honest P p act)(hok:Unblamed P p s act)(h:step P s act=some t):
 Sincere P p t:=by
 have hedit:∀{m g n g'},Sincerely P p m g→Edit P s act m g n g' → Sincerely P p n g':=
  sincerely_edit hinj hhonest (not_blamed hinj hs hok)
 exact (step_of_edit hedit ⟨hs,fun _ ha=>absurd ha not_mem_nil⟩ h).choose_spec.toSincere

/-- An honest peer is not dropped, whatever the others do, in a run in which no header with a
number arrives while it is requested on an announcement of the peer that has none. -/
theorem honest_peer_not_dropped (hinj : Function.Injective P.hash)
    {actions : List (Action W H ι Hd T)} (hhonest : ∀ a ∈ actions, Honest P p a)
    (hrun : exec (step P) (new H ι Hd T) actions = some t)
    (hok : Careful (step P) (Unblamed P p) (new H ι Hd T) actions) : p ∉ t.dropped :=
 (careful_invariant (fun _ _ _ hs hok hstep=>sincere_step hinj hs hok.1 hok.2 hstep) sincere_new
  hrun (hok.and hhonest)).undropped

instance unblamed_decidable (s:Fetcher H ι Hd T):∀a:Action W H ι Hd T,Decidable (Unblamed P p s a)
 | .event (.headers _ batch _)=>inferInstanceAs (Decidable (∀b∈batch,
  ∀a∈requested (P.hash b.1) s,a.origin=p→a.number=0→P.number b.1=0))
 | .event (.notify ..) | .event (.inject ..) | .event (.done ..) | .event (.fetchTick ..)
 | .event (.completeTick ..) | .event (.blocks ..) | .event (.bodies ..) | .newBlockHashes ..
 | .newBlock .. | .insert .. | .expire .. | .pop .. | .select=>.isTrue trivial

/-- The header of block 5 arrives while the announcement of peer 1 is being fetched. -/
def headerFive (message:NewBlockHashes ℕ):List (Action Unit ℕ ℕ ℕ ℕ):=
 announceFive message false++[.expire [(5,500000000)] 0,.select,
  .event (.headers 500000000 [(5,false)] (fun _=>0))]

lemma valid_five:Valid sampleParams 5:=by
 rintro world parent rfl
 exact fun h=>absurd h nofun

lemma honest_headerFive(h:Honest sampleParams 1 (.newBlockHashes 1 message (fun _=>false) :
  Action Unit ℕ ℕ ℕ ℕ)):∀a∈headerFive message,Honest sampleParams 1 a:=by
 simp only[headerFive,announceFive,cons_append,nil_append,forall_mem_cons]
 exact⟨h,trivial,trivial,trivial,trivial,trivial,trivial,trivial,trivial,trivial,
  fun _ ha=>absurd ha not_mem_nil⟩

theorem numbered_peer_not_dropped : ∃ t,
    exec (step sampleParams) (new ℕ ℕ ℕ ℕ) (headerFive (.blocks [(5, 5)])) = some t ∧
      1 ∉ t.dropped := by
 have hrun:(exec (step sampleParams) (new ℕ ℕ ℕ ℕ)
  (headerFive (.blocks [(5,5)]))).isSome:=by decide +kernel
 obtain⟨t,hrun⟩:=Option.isSome_iff_exists.1 hrun
 refine⟨t,hrun,honest_peer_not_dropped injective_id (honest_headerFive ?_) hrun
  (by decide +kernel)⟩
 exact fun _ b hb=>mem_singleton.1 hb▸⟨5,rfl,valid_five,rfl⟩

/-- Peer 1 announces a valid block over the old protocol and is dropped when the header of the
block arrives. -/
theorem old_peer_dropped : ∃ t,
    exec (step sampleParams) (new ℕ ℕ ℕ ℕ) (headerFive (.hashes [5])) = some t ∧
      (∀ a ∈ headerFive (.hashes [5]), Honest sampleParams 1 a) ∧ 1 ∈ t.dropped := by
 have hrun:(exec (step sampleParams) (new ℕ ℕ ℕ ℕ) (headerFive (.hashes [5]))).map
  (·.dropped)=some [1]:=by decide +kernel
 obtain⟨t,hrun,hdropped⟩:=Option.map_eq_some_iff.1 hrun
 refine⟨t,hrun,honest_headerFive ?_,hdropped▸mem_cons_self⟩
 exact fun _ hash hhash=>mem_singleton.1 hhash▸⟨5,rfl,valid_five⟩

end GoCoupe.FetcherBlame
