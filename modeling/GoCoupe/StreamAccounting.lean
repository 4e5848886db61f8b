import GoCoupe.RlpValueReading

/-!
# The accounting of a limited stream

Whatever is called on a stream with a limit, the open lists fit into one another and the
outermost into what is left of the limit, so no difference wraps around. The limit is charged
before the reader is asked: where the input ends early, more has been charged than read.
-/

namespace GoCoupe.StreamAccounting

open RlpStream Reading RlpStreamReading RlpValueReading
open RlpRawSplitting hiding readKind

/-- What may still be read: in the innermost list, or up to the limit. -/
def room:List ListPos→ℕ→ℕ
 | [],remaining=>remaining
 | tos::_,_=>tos.size-tos.pos

/-- Every list fits into what the one around it had left, the outermost into the limit. -/
def Nested:List ListPos→ℕ→Prop
 | [],_=>True
 | tos::st,remaining=>tos.pos≤tos.size ∧ tos.size≤room st (remaining+tos.pos) ∧
  Nested st (remaining+tos.pos)

structure Accounted (input:Bytes) (limit:ℕ) (s:Stream):Prop where
 limited:s.limited=true
 nested:Nested s.stack s.remaining
 remaining:s.remaining≤limit
 reader:s.r=input.drop (limit-s.remaining)
 ahead:∀k,s.kind=some k→s.kinderr=none→s.size≤room s.stack s.remaining

/-- No more is taken from the limit than may be read. -/
def Bounded (s s':Stream):Prop:=
 s'.remaining ≤ s.remaining ∧ s.remaining-s'.remaining≤room s.stack s.remaining

/-- What is taken from the limit is taken from what may be read. -/
def Charged (s s':Stream):Prop:=
 s'.remaining ≤ s.remaining ∧ s.remaining+room s'.stack s'.remaining ≤ s'.remaining+room s.stack s.remaining

lemma room_le(h:Nested st n):room st n≤n:=by
 induction st generalizing n with
 | nil=>exact le_rfl
 | cons tos st ih=>
  have:=h.2.1.trans (ih h.2.2)
  simp only[room]
  omega

lemma room_addPos(st:List ListPos)(m n:ℕ):room (addPos n st) (m-n)=room st m-n:=by
 cases st with
 | nil=>rfl
 | cons tos st=>exact (Nat.sub_sub _ _ _).symm

lemma nested_addPos(h:Nested st m)(hn:n≤room st m):Nested (addPos n st) (m-n):=by
 have hm:=hn.trans (room_le h)
 cases st with
 | nil=>trivial
 | cons tos st=>
  have hpos:=h.1
  have heq:m-n+(tos.pos+n)=m+tos.pos:=by omega
  simp only[room]at hn
  refine⟨show tos.pos+n≤tos.size by omega,?_⟩
  dsimp only
  rw[heq]
  exact h.2

variable {I:Stream→Prop} {ε ε' α:Type} {m m':Reading ε α} {p:Prop} [Decidable p]

/-- The computation ends, with a result or an error, and keeps the invariant. -/
def Keeps (I:Stream→Prop) (m:Reading ε α):Prop:=∀s,I s→∃x s',m s=some (x,s') ∧ I s'

lemma keeps_pure(a:α):Keeps I (pure a:Reading ε α):=fun s hs=>⟨_,s,rfl,hs⟩

lemma keeps_throw(e:ε):Keeps I (Reading.throw e:Reading ε α):=fun s hs=>⟨_,s,rfl,hs⟩

lemma keeps_get:Keeps I (Reading.get:Reading ε Stream):=fun s hs=>⟨_,s,rfl,hs⟩

lemma keeps_modify(h:∀s,I s→I (f s)):
 Keeps I (Reading.modify f:Reading ε Unit):=fun s hs=>⟨_,f s,rfl,h s hs⟩

lemma keeps_bind(hm:Keeps I m)(hk:∀a,Keeps I (k a)):Keeps I (m>>=k):=by
 intro s hs
 obtain⟨e|a,t,hmt,ht⟩:=hm s hs
 ·exact⟨_,t,bind_of_error hmt,ht⟩
 rw[bind_of_ok hmt]
 exact hk a t ht

lemma keeps_observe(hm:Keeps I m):Keeps I (observe m:Reading ε' (Except ε α)):=by
 intro s hs
 obtain⟨x,s',h,hs'⟩:=hm s hs
 exact⟨_,s',observe_eq_ok.2 h,hs'⟩

lemma keeps_ite(hm:Keeps I m)(hm':Keeps I m'):Keeps I (if p then m else m'):=by
 split<;>assumption

lemma keeps_guard(hm:Keeps I m):Keeps I (if p then Reading.throw e>>=k else m):=
 keeps_ite (fun s hs=>⟨.error e,s,rfl,hs⟩) hm

structure Kept (input:Bytes) (limit:ℕ) (s₀ s:Stream):Prop
 extends Accounted input limit s where
 charged:Charged s₀ s

variable {input:Bytes} {limit:ℕ} {s₀ s:Stream}

lemma Accounted.kept(hs:Accounted input limit s):Kept input limit s s:=⟨hs,le_rfl,le_rfl⟩

lemma Kept.rearm(hs:Kept input limit s₀ s):Kept input limit s₀ {s with kind:=none}:=
 ⟨⟨hs.limited,hs.nested,hs.remaining,hs.reader,nofun⟩,hs.charged⟩

lemma keeps_rearm:Keeps (Kept input limit s₀) rearm:=keeps_modify fun _ hs=>hs.rearm

lemma Kept.advance(hs:Kept input limit s₀ s)(hn:n≤room s.stack s.remaining):
 Kept input limit s₀ (advance n s):=by
 have hle:=hn.trans (room_le hs.nested)
 have hlimit:=hs.remaining
 have hroom:=room_addPos s.stack s.remaining n
 have hcharged:=hs.charged
 refine⟨⟨hs.limited,nested_addPos hs.nested hn,(Nat.sub_le _ _).trans hlimit,?_,nofun⟩,?_⟩
 ·have heq:limit-s.remaining+n=limit-(s.remaining-n):=by omega
  simp only[RlpStreamReading.advance]
  rw[hs.reader,List.drop_drop,heq]
 simp only[Charged,RlpStreamReading.advance]at hcharged ⊢
 omega

lemma keeps_readFull(n:ℕ):Keeps (Kept input limit s₀) (readFull n):=by
 intro s hs
 have hrearm:=hs.rearm
 obtain⟨r,remaining,limited,kind,size,byteval,kinderr,stack⟩:=s
 obtain rfl:limited=true:=hs.limited
 by_cases hn:n≤room stack remaining
 ·have hle:=not_lt.2 (hn.trans (room_le hs.nested))
  refine⟨if n≤r.length then .ok (r.take n) else .error .unexpectedEOF,_,?_,hs.advance hn⟩
  rcases stack with _|⟨tos,st⟩<;>by_cases hr:n≤r.length
  all_goals
   have hroom:=not_lt.2 hn
   simp only[room]at hroom
   simp[readFull,willRead,rearm,bind_apply,andThen,advance,addPos,hr,hle,hroom]
 refine⟨.error (if stack=[] then .valueTooLarge else .elemTooLarge),_,?_,hrearm⟩
 rcases stack with _|⟨tos,st⟩
 all_goals
  have hroom:=not_le.1 hn
  simp only[room]at hroom
  simp[readFull,willRead,rearm,bind_apply,andThen,hroom]

lemma keeps_readByte:Keeps (Kept input limit s₀) readByte:=by
 rw[readByte_eq]
 exact keeps_bind (keeps_readFull 1) fun _=>keeps_pure _

lemma keeps_readUint(n:ℕ):Keeps (Kept input limit s₀) (readUint n):=by
 match n with
 | 0=>exact keeps_bind keeps_rearm fun _=>keeps_pure _
 | 1=>exact keeps_bind keeps_readByte fun _=>keeps_pure _
 | n+2=>exact keeps_bind (keeps_readFull _) fun _=>keeps_guard (keeps_pure _)

lemma keeps_readKind:Keeps (Kept input limit s₀) readKind:=by
 have hlong (k:Kind) (n:ℕ):Keeps (Kept input limit s₀) (readLongSize k n):=by
  refine keeps_bind (keeps_observe (keeps_readUint n)) fun y=>?_
  cases y<;>exact keeps_pure _
 have hbyteval (b:UInt8):Keeps (Kept input limit s₀)
  (Reading.modify fun s=>{s with byteval:=b}:Step Unit):=
  keeps_modify fun s hs=>⟨⟨hs.limited,hs.nested,hs.remaining,hs.reader,hs.ahead⟩,hs.charged⟩
 refine keeps_bind (keeps_observe keeps_readByte) fun y=>?_
 cases y with
 | error e=>exact keeps_bind keeps_get fun _=>keeps_pure _
 | ok b=>
  refine keeps_bind (hbyteval 0) fun _=>keeps_ite ?_ (keeps_ite (keeps_pure _) ?_)
  ·exact keeps_bind (hbyteval b) fun _=>keeps_pure _
  exact keeps_ite (hlong _ _) (keeps_ite (keeps_pure _) (hlong _ _))

/-- The size that `Kind` returns has room. -/
lemma kind_spec(hs:Kept input limit s₀ s):∃x t,kind s=some (x,t)∧
 Kept input limit s₀ t∧∀y,x=.ok y→y.2≤room t.stack t.remaining:=by
 have hrecall {u:Stream} {k:Kind} (hu:Kept input limit s₀ u) (hk:u.kind=some k) :
  ∃x,recallKind u=some (x,u)∧∀y,x=.ok y→y.2≤room u.stack u.remaining:=by
  rw[recallKind,bind_of_ok (get_apply u)]
  cases herr:u.kinderr with
  | some e=>exact⟨_,rfl,fun _ h=>by cases h⟩
  | none=>
   rw[hk]
   exact⟨_,rfl,fun y hy=>Except.ok.inj hy▸hu.ahead k hk herr⟩
 cases hk:s.kind with
 | some k=>
  obtain⟨x,hx,hroom⟩:=hrecall hs hk
  exact⟨x,s,(kind_of_some hk).trans hx,hs,hroom⟩
 | none=>
  have hclear:Kept input limit s₀ {s with kinderr:=none}:=
   ⟨⟨hs.limited,hs.nested,hs.remaining,hs.reader,by simp[hk]⟩,hs.charged⟩
  by_cases hend:AtEnd s.stack
  ·exact⟨_,_,kind_atEnd hk hend,hclear,fun _ h=>by cases h⟩
  obtain⟨e|x,t,hread,ht⟩:=keeps_readKind _ hclear
  ·exact absurd hread (avoids_readKind e _ _)
  have hnew:Kept input limit s₀ {t with
   kind:=some x.1
   size:=x.2.1
   kinderr:=x.2.2.orElse fun _=>sizeError t x.2.1}:=by
   refine⟨⟨ht.limited,ht.nested,ht.remaining,ht.reader,fun _ _ herr=>?_⟩,ht.charged⟩
   have hsize:sizeError t x.2.1=none:=((Option.orElse_eq_none _ _).1 herr).2
   rw[sizeError]at hsize
   cases hst:t.stack with
   | nil=>simpa[hst,ht.limited,room]using hsize
   | cons tos st=>simpa[hst,room]using hsize
  obtain⟨y,hy,hroom⟩:=hrecall hnew rfl
  exact⟨y,_,(kind_of_none hk hend).trans ((bind_of_ok hread).trans hy),hnew,hroom⟩

lemma keeps_kind:Keeps (Kept input limit s₀) kind:=by
 intro s hs
 obtain⟨x,t,hx,ht,-⟩:=kind_spec hs
 exact⟨x,t,hx,ht⟩

lemma keeps_bytes:Keeps (Kept input limit s₀) RlpStream.bytes:=by
 refine keeps_bind keeps_kind fun x=>?_
 rcases x with⟨_ | _ | _,n⟩
 ·exact keeps_bind keeps_rearm fun _=>keeps_bind keeps_get fun _=>keeps_pure _
 ·exact keeps_bind (keeps_readFull n) fun _=>keeps_guard (keeps_pure _)
 exact keeps_throw _

lemma keeps_raw:Keeps (Kept input limit s₀) raw:=by
 refine keeps_bind keeps_kind fun x=>?_
 rcases x with⟨_ | _ | _,n⟩
 ·exact keeps_bind keeps_rearm fun _=>keeps_bind keeps_get fun _=>keeps_pure _
 all_goals exact keeps_bind (keeps_readFull n) fun _=>keeps_pure _

lemma keeps_uint(maxbits:ℕ):Keeps (Kept input limit s₀) (uint maxbits):=by
 refine keeps_bind keeps_kind fun x=>?_
 rcases x with⟨_ | _ | _,n⟩
 ·exact keeps_bind keeps_get fun _=>keeps_guard (keeps_bind keeps_rearm fun _=>keeps_pure _)
 ·refine keeps_guard (keeps_bind (keeps_observe (keeps_readUint n)) fun y=>?_)
  rcases y with e|v
  ·cases e<;>exact keeps_throw _
  exact keeps_ite (keeps_throw _) (keeps_pure _)
 exact keeps_throw _

lemma keeps_bool:Keeps (Kept input limit s₀) RlpStream.bool:=by
 refine keeps_bind (keeps_uint 8) fun v=>?_
 rcases v with _ | _|v
 ·exact keeps_pure _
 ·exact keeps_pure _
 exact keeps_throw _

lemma keeps_list:Keeps (Kept input limit s₀) list:=by
 intro s hs
 obtain⟨e|⟨k,n⟩,t,hkind,ht,hroom⟩:=kind_spec hs
 ·exact⟨_,t,bind_of_error hkind,ht⟩
 rw[list,bind_of_ok hkind]
 cases k with
 | byte | string=>exact⟨_,t,rfl,ht⟩
 | list=>
  have hn:n≤room t.stack t.remaining:=hroom _ rfl
  exact⟨_,_,rfl,⟨ht.limited,⟨Nat.zero_le _,hn,ht.nested⟩,ht.remaining,ht.reader,
   fun _ h=>by cases h⟩,ht.charged.1,(Nat.add_le_add_left hn _).trans ht.charged.2⟩

/-- What was read in a list is charged to the one around it. -/
lemma accounted_listEnd(hs:Accounted input limit s):
 ∃x s',listEnd s=some (x,s')∧Accounted input limit s'∧s'.remaining=s.remaining:=by
 rw[listEnd,bind_of_ok (get_apply s)]
 cases hst:s.stack with
 | nil=>exact⟨_,s,rfl,hs,rfl⟩
 | cons tos st=>
  dsimp only
  by_cases hpos:tos.pos=tos.size
  ·have hn:=hs.nested
   rw[hst]at hn
   have hnew:=nested_addPos hn.2.2 hn.2.1
   rw[hpos,Nat.add_sub_cancel]at hnew
   rw[if_neg (not_not.2 hpos)]
   exact⟨_,_,rfl,⟨hs.limited,hnew,hs.remaining,hs.reader,fun _ h=>by cases h⟩,rfl⟩
  exact⟨.error .notAtEOL,s,by rw[if_pos hpos];rfl,hs,rfl⟩

/-- The methods of a stream. The last three are those the others use, so that the states between
the steps of a call are states between calls as well. -/
inductive Call where
 | kind
 | bytes
 | uint
 | bool
 | raw
 | list
 | listEnd
 | readKind
 | readUint (n:ℕ)
 | readFull (n:ℕ)

def after {α:Type} (m:Step α) (s:Stream):Option Stream:=(m s).map Prod.snd

def Call.run:Call→Stream→Option Stream
 | .kind=>after RlpStream.kind
 | .bytes=>after RlpStream.bytes
 | .uint=>after (RlpStream.uint 64)
 | .bool=>after RlpStream.bool
 | .raw=>after RlpStream.raw
 | .list=>after RlpStream.list
 | .listEnd=>after RlpStream.listEnd
 | .readKind=>after RlpStream.readKind
 | .readUint n=>after (RlpStream.readUint n)
 | .readFull n=>after (RlpStream.readFull n)

def runCalls:List Call→Stream→Option Stream
 | [],s=>some s
 | call::calls,s=>(call.run s).bind (runCalls calls)

def limitedStream (input:Bytes) (limit:ℕ):Stream:=⟨input,limit,true,none,0,0,none,[]⟩

lemma call_keeps(hs:Accounted input limit s)(call:Call):
 ∃s',call.run s=some s'∧Accounted input limit s'∧Bounded s s':=by
 have hstep {α:Type} {m:Step α} (hm:Keeps (Kept input limit s) m) :
  ∃s',after m s=some s'∧Accounted input limit s'∧Bounded s s':=by
  obtain⟨x,s',h,hs',hle,hcharged⟩:=hm s hs.kept
  exact⟨s',by rw[after,h];rfl,hs',hle,by omega⟩
 cases call with
 | kind=>exact hstep keeps_kind
 | bytes=>exact hstep keeps_bytes
 | uint=>exact hstep (keeps_uint 64)
 | bool=>exact hstep keeps_bool
 | raw=>exact hstep keeps_raw
 | list=>exact hstep keeps_list
 | readKind=>exact hstep keeps_readKind
 | readUint n=>exact hstep (keeps_readUint n)
 | readFull n=>exact hstep (keeps_readFull n)
 | listEnd=>
  obtain⟨x,s',h,hs',heq⟩:=accounted_listEnd hs
  exact⟨s',by rw[Call.run,after,h];rfl,hs',heq.le,by omega⟩

lemma run_keeps(hs:Accounted input limit s)(calls:List Call):
 ∃s',runCalls calls s=some s'∧Accounted input limit s':=by
 induction calls generalizing s with
 | nil=>exact⟨s,rfl,hs⟩
 | cons call calls ih=>
  obtain⟨t,ht,hacc,-⟩:=call_keeps hs call
  obtain⟨s',hs',hacc'⟩:=ih hacc
  exact⟨s',by rw[runCalls,ht];exact hs',hacc'⟩

/-- After any calls on a limited stream the accounts are in order, and the next call goes neither
beyond the limit nor beyond the innermost list. -/
theorem stream_accounting (input : Bytes) (limit : ℕ) (calls : List Call) :
    ∃ s, runCalls calls (limitedStream input limit) = some s ∧ Accounted input limit s ∧
      ∀ call : Call, ∃ s', call.run s = some s' ∧ Bounded s s' := by
 have hstart:Accounted input limit (limitedStream input limit):=
  ⟨rfl,trivial,le_rfl,by simp[limitedStream],nofun⟩
 obtain⟨s,hs,hacc⟩:=run_keeps hstart calls
 refine⟨s,hs,hacc,fun call=>?_⟩
 obtain⟨s',hs',-,hbounded⟩:=call_keeps hacc call
 exact⟨s',hs',hbounded⟩

/-- Looking for a value at the end of the input is charged, and nothing is read. -/
theorem charged_at_end_of_input :
    ((runCalls [.kind] (limitedStream [] 5)).map fun s => (s.remaining, s.r)) = some (4, []) := rfl

end GoCoupe.StreamAccounting
