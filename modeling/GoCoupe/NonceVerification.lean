import GoCoupe.GuardedRuns
import Mathlib.Data.List.Perm.Basic
import Mathlib.Data.List.Nodup
import Mathlib.Data.List.Range

/-!
# Proofs of work of imported blocks

`InsertChain` with the goroutines of `verifyNonces`: one feeds the indices of the batch to the
verifiers, and the loop over the blocks takes their results as they come. Sending and receiving
on the buffered channels are actions of their own.
-/

namespace GoCoupe.NonceVerification
open GuardedRuns List Nat

/-- The verifiers are known by what they do. `received` are the results that the loop has taken,
and `nonceChecked` is true of their indices. -/
structure Import where
 next:ℕ
 feeding:Bool
 tasks:List ℕ
 idle:ℕ
 working:List ℕ
 ended:ℕ
 results:List (ℕ × Bool)
 received:List (ℕ × Bool)
 position:ℕ
 returned:Bool
 written:List ℕ

/-- As many verifiers as threads, of which there is one at least, but not more than blocks. -/
def workers (procs n:ℕ):ℕ:=min (procs+1) n

def start (procs n:ℕ):Import:=⟨0,true,[],workers procs n,[],0,[],[],0,false,[]⟩

/-- `proceed` goes on to the next block, with or without writing this one, and `leave` stands for
every return of `InsertChain` but that for an invalid nonce. -/
inductive Action where
 | feed
 | close
 | abort
 | take
 | verify (i:ℕ) (valid:Bool)
 | stop
 | receive
 | proceed (write:Bool)
 | leave

/-- The loop waits for the nonce of the block it is at. -/
def Import.Waits (n:ℕ) (s:Import):Prop:=
 s.returned=false ∧ s.position<n ∧ s.position∉s.received.map Prod.fst

instance waits_decidable (n:ℕ) (s:Import):Decidable (s.Waits n):=
 inferInstanceAs (Decidable (_ ∧ _ ∧ _))

def step (procs n:ℕ) (s:Import):Action→Option Import
 | .feed=>
  if s.feeding ∧ s.next<n ∧ s.tasks.length<workers procs n then
   some {s with next:=s.next+1,tasks:=s.tasks++[s.next]}
  else none
 | .close=>if s.feeding ∧ s.next=n then some {s with feeding:=false} else none
 | .abort=>if s.feeding ∧ s.returned then some {s with feeding:=false} else none
 | .take=>
  match s.tasks with
  | []=>none
  | i::tasks=>
   if 0 < s.idle then some {s with tasks:=tasks,idle:=s.idle-1,working:=i::s.working}
   else none
 | .verify i valid=>
  if i∈s.working ∧ s.results.length<n then some {s with
   working:=s.working.erase i
   idle:=s.idle+1
   results:=s.results++[(i,valid)]}
  else none
 | .stop=>
  if 0 < s.idle ∧ s.tasks=[] ∧ s.feeding=false then
   some {s with idle:=s.idle-1,ended:=s.ended+1}
  else none
 | .receive=>
  match s.results with
  | []=>none
  | r::results=>
   if s.Waits n then
    some {s with results:=results,received:=r::s.received,returned:=!r.2}
   else none
 | .proceed write=>
  if s.returned=false ∧ s.position<n ∧ s.position∈s.received.map Prod.fst then some {s with
   position:=s.position+1
   written:=if write then s.position::s.written else s.written}
  else none
 | .leave=>if s.returned=false then some {s with returned:=true} else none

/-- An action of the feeder or of a verifier. -/
def Action.Helps:Action→Prop
 | .feed | .close | .abort | .take | .verify _ _ | .stop=>True
 | _=>False

/-- The actions that feeder and verifiers can still do. -/
def remaining (n:ℕ) (s:Import):ℕ:=
 3*(n-s.next)+2*s.tasks.length+2*s.working.length+s.idle+s.feeding.toNat

/-- Every index that was fed is in one place. -/
structure Consistent (procs n:ℕ) (s:Import):Prop where
 fed:(s.tasks++s.working++(s.received++s.results).map Prod.fst).Perm (range s.next)
 next_le:s.next≤n
 count:s.idle+s.working.length+s.ended=workers procs n
 ended:s.ended≠0→s.feeding=false ∧ s.tasks=[]
 closed:s.feeding=false→s.returned=false→s.next=n
 valid:s.returned=false→∀r∈s.received,r.2=true
 passed:∀i < s.position,(i,true)∈s.received
 written:∀i∈s.written,i < s.position

variable {procs n:ℕ} {s t:Import}

lemma consistent_start(procs n:ℕ):Consistent procs n (start procs n) where
 fed:=.nil
 next_le:=zero_le n
 count:=rfl
 ended:=nofun
 closed:=nofun
 valid _ _:=nofun
 passed _ h:=absurd h (not_lt_zero _)
 written _:=nofun

lemma consistent_step(h:Consistent procs n s)(hstep:step procs n s a=some t):
 Consistent procs n t:=by
 cases a with
 | feed=>
  obtain⟨⟨hfeeding,hnext,-⟩,rfl⟩:=of_guarded hstep
  refine⟨?_,hnext,h.count,fun he=>?_,fun hf=>?_,h.valid,h.passed,h.written⟩
  ·rw[range_succ]
   refine (perm_iff_count.2 fun i=>?_).trans (h.fed.append_right [s.next])
   simp only[count_append]
   omega
  ·rw[(h.ended he).1]at hfeeding
   cases hfeeding
  cases hfeeding.symm.trans hf
 | close=>
  obtain⟨⟨-,hnext⟩,rfl⟩:=of_guarded hstep
  exact⟨h.fed,h.next_le,h.count,fun he=>⟨rfl,(h.ended he).2⟩,fun _ _=>hnext,h.valid,h.passed,h.written⟩
 | abort=>
  obtain⟨⟨-,hreturned⟩,rfl⟩:=of_guarded hstep
  refine⟨h.fed,h.next_le,h.count,fun he=>⟨rfl,(h.ended he).2⟩,fun _ hr=>?_,h.valid,h.passed,h.written⟩
  cases hreturned.symm.trans hr
 | take=>
  rw[step]at hstep
  split at hstep<;>[cases hstep;rename_i i tasks htasks]
  obtain⟨hidle,rfl⟩:=of_guarded hstep
  have hcount:=h.count
  refine⟨?_,h.next_le,?_,fun he=>?_,h.closed,h.valid,h.passed,h.written⟩
  ·refine (perm_iff_count.2 fun j=>?_).trans h.fed
   simp only[htasks,count_append,count_cons]
   omega
  ·simp only[length_cons]
   omega
  have hnil:=(h.ended he).2
  rw[htasks]at hnil
  cases hnil
 | verify i valid=>
  obtain⟨⟨hi,-⟩,rfl⟩:=of_guarded hstep
  have hcount:=h.count
  refine⟨?_,h.next_le,?_,h.ended,h.closed,h.valid,h.passed,h.written⟩
  ·refine (perm_iff_count.2 fun j=>?_).trans h.fed
   have hj:=(perm_cons_erase hi).count_eq j
   simp only[map_append,map_cons,map_nil,count_append,count_cons,count_nil]at hj ⊢
   omega
  have hlen:=length_erase_of_mem hi
  have hpos:=length_pos_of_mem hi
  simp only
  omega
 | stop=>
  obtain⟨⟨hidle,htasks,hfeeding⟩,rfl⟩:=of_guarded hstep
  have hcount:=h.count
  refine⟨h.fed,h.next_le,?_,fun _=>⟨hfeeding,htasks⟩,h.closed,h.valid,h.passed,h.written⟩
  simp only
  omega
 | receive=>
  rw[step]at hstep
  split at hstep<;>[cases hstep;rename_i r results hresults]
  obtain⟨hwaits,rfl⟩:=of_guarded hstep
  refine⟨?_,h.next_le,h.count,h.ended,fun hf _=>h.closed hf hwaits.1,fun hr=>?_,
   fun i hi=>mem_cons_of_mem _ (h.passed i hi),h.written⟩
  ·refine (perm_iff_count.2 fun j=>?_).trans h.fed
   simp only[hresults,map_append,map_cons,count_append,count_cons]
   omega
  exact forall_mem_cons.2 ⟨by simpa using hr,h.valid hwaits.1⟩
 | proceed write=>
  obtain⟨⟨hreturned,-,hchecked⟩,rfl⟩:=of_guarded hstep
  refine⟨h.fed,h.next_le,h.count,h.ended,h.closed,h.valid,fun i hi=>?_,fun i hi=>?_⟩
  ·obtain hi|rfl:=Nat.lt_succ_iff_lt_or_eq.1 hi
   ·exact h.passed i hi
   obtain⟨⟨j,valid⟩,hr,hj⟩:=mem_map.1 hchecked
   have hvalid:valid=true:=h.valid hreturned _ hr
   rwa[hvalid,show j=s.position from hj]at hr
  cases write with
  | false=>exact lt_succ_of_lt (h.written i hi)
  | true=>
   obtain rfl|hi:=mem_cons.1 hi
   ·exact lt_succ_self _
   exact lt_succ_of_lt (h.written i hi)
 | leave=>
  obtain⟨-,rfl⟩:=of_guarded hstep
  exact⟨h.fed,h.next_le,h.count,h.ended,nofun,nofun,h.passed,h.written⟩

lemma remaining_lt(ha:a.Helps)(hstep:step procs n s a=some t):remaining n t<remaining n s:=by
 cases a with
 | feed=>
  obtain⟨⟨-,hnext,-⟩,rfl⟩:=of_guarded hstep
  simp only[remaining,length_append,length_singleton]
  omega
 | close | abort=>
  obtain⟨⟨hfeeding,-⟩,rfl⟩:=of_guarded hstep
  simp[remaining,hfeeding]
 | take=>
  rw[step]at hstep
  split at hstep<;>[cases hstep;rename_i i tasks htasks]
  obtain⟨hidle,rfl⟩:=of_guarded hstep
  simp only[remaining,htasks,length_cons]
  omega
 | verify i valid=>
  obtain⟨⟨hi,-⟩,rfl⟩:=of_guarded hstep
  have hlen:=length_erase_of_mem hi
  have hpos:=length_pos_of_mem hi
  simp only[remaining]
  omega
 | stop=>
  obtain⟨⟨hidle,-⟩,rfl⟩:=of_guarded hstep
  simp only[remaining]
  omega
 | receive | proceed | leave=>exact ha.elim

/-- When feeder and verifiers can do nothing, they have ended and verified what was fed. -/
lemma ended_of_idle(h:Consistent procs n s)(hidle:∀a:Action,a.Helps→step procs n s a=none):
 s.feeding=false∧s.idle=0∧s.working=[]∧s.tasks=[]:=by
 have hnot:∀{a:Action} {t:Import},a.Helps→step procs n s a≠some t:=
  fun ha hstep=>absurd ((hidle _ ha).symm.trans hstep) nofun
 have hcount:=h.count
 have hlen:=h.fed.length_eq
 have hnext:=h.next_le
 have hworkers:0<n → 0<workers procs n:=fun hn=>Nat.lt_min.2 ⟨Nat.succ_pos procs,hn⟩
 simp only[length_append,length_map,length_range]at hlen
 have hworking:s.working=[]:=by
  by_contra hne
  obtain⟨i,rest,hi⟩:=exists_cons_of_ne_nil hne
  rw[hi,length_cons]at hlen
  exact @hnot (.verify i true) _ trivial (if_pos ⟨by simp[hi],by omega⟩)
 rw[hworking,length_nil]at hlen hcount
 have htasks:s.tasks=[]:=by
  by_contra hne
  obtain⟨i,rest,hi⟩:=exists_cons_of_ne_nil hne
  rw[hi,length_cons]at hlen
  by_cases hzero:s.idle=0
  ·exact hne (h.ended (by have:=hworkers (by omega);omega)).2
  have htake:=hidle .take trivial
  rw[step,hi]at htake
  exact absurd htake (by simp[Nat.pos_of_ne_zero hzero])
 have hfeeding:s.feeding=false:=by
  by_contra hne
  have hfeeding:=eq_true_of_ne_false hne
  obtain hlt|heq:=hnext.lt_or_eq
  ·refine @hnot .feed _ trivial (if_pos ⟨hfeeding,hlt,?_⟩)
   rw[htasks]
   exact hworkers (by omega)
  exact @hnot .close _ trivial (if_pos ⟨hfeeding,heq⟩)
 refine⟨hfeeding,?_,hworking,htasks⟩
 by_contra hne
 exact @hnot .stop _ trivial (if_pos ⟨Nat.pos_of_ne_zero hne,htasks,hfeeding⟩)

/-- A block is written only after its own nonce was found valid, none from an invalid one on is
written, the goroutines can do finitely many actions and have ended when they can do no more, and
then a loop that waits finds a result. -/
theorem nonces_checked (procs n : ℕ) (actions : List Action)
    (h : exec (step procs n) (start procs n) actions = some s) :
    (∀ i ∈ s.written, (i, true) ∈ s.received) ∧
    (∀ i, (i, false) ∈ s.received ++ s.results → ∀ j ∈ s.written, j < i) ∧
    (∀ a t, a.Helps → step procs n s a = some t → remaining n t < remaining n s) ∧
    ((∀ a : Action, a.Helps → step procs n s a = none) →
      (s.feeding = false ∧ s.idle = 0 ∧ s.working = []) ∧ (s.Waits n → s.results ≠ [])) := by
 have hs:Consistent procs n s:=
  exec_invariant (fun _ _ _ hs hm=>consistent_step hs hm) (consistent_start procs n) h
 refine⟨fun i hi=>hs.passed i (hs.written i hi),fun i hi j hj=>?_,
  fun _ _ ha hstep=>remaining_lt ha hstep,fun hidle=>?_⟩
 · by_contra hij
   have hvalid:=hs.passed i ((not_lt.1 hij).trans_lt (hs.written j hj))
   have hnodup:=(nodup_append.1 (hs.fed.nodup_iff.2 nodup_range)).2.1
   have:=inj_on_of_nodup_map hnodup hi (mem_append_left _ hvalid) rfl
   cases this
 obtain⟨hfeeding,hzero,hworking,htasks⟩:=ended_of_idle hs hidle
 refine⟨⟨hfeeding,hzero,hworking⟩,fun ⟨hreturned,hpos,hwaits⟩ hresults=>hwaits ?_⟩
 have hfed:=hs.fed.mem_iff.2 (mem_range.2 (hs.closed hfeeding hreturned▸hpos))
 simpa[htasks,hworking,hresults] using hfed

theorem nonces_checked_single : ∃ s, exec (step 0 1) (start 0 1)
    [.feed, .take, .verify 0 true, .receive, .proceed true] = some s ∧
      s.written = [0] ∧ (0, true) ∈ s.received :=
 ⟨_, rfl, rfl, (nonces_checked 0 1
  [.feed, .take, .verify 0 true, .receive, .proceed true] rfl).1 0 (.head _)⟩

end GoCoupe.NonceVerification
