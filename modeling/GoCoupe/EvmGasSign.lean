import GoCoupe.EvmFrameInvariants

/-!
# Gas does not become negative

Whatever the stack and the memory hold, and however the surroundings answer, a turn of the
byte-code loop leaves the gas non-negative, provided that calls hand back no negative gas.
-/

namespace GoCoupe.EvmGasSign

open EvmMachine EvmByteCodeLoop EvmFrameInvariants

/-- Calls and creations hand back no negative gas. -/
def HandsBack:(q:Query) → q.Answer→Prop
 | .call _ _ _ _ _ _ _,(r:CallResult)=>0≤r.gas
 | .create _ _ _ _ _,(r:CallResult)=>0≤r.gas
 | _,_=>True

/-- The frame after a computation that does not fail satisfies the condition. -/
def FrameAfter {α:Type} (good:Frame→Prop):Except VmError (α × Frame)→Prop
 | .ok (_,f)=>good f
 | .error _=>True

/-- The computation keeps the gas non-negative. -/
def Sound {α:Type} (m:Vm α):Prop:=
 ∀f,0≤f.gas→(m f).Safe True (fun _=>True) HandsBack (FrameAfter fun f'=>0≤f'.gas)

def gasNonnegative:FrameInvariant where
 answers:=HandsBack
 words:=False
 size _ g:=0≤g
 used _ _ _ hx _:=sub_nonneg.2 hx
 called _ _ _ _ _ _ _ _ hr _ _ hg:=add_nonneg hg hr
 created _ _ _ _ _ _ hr _ _ hg:=add_nonneg hg hr

lemma sound_byteStep(env:Environment)(con:Contract)(pc:ℕ):Sound (byteStep env con pc):=by
 intro f hf
 have hkeeps:Keeps gasNonnegative Any (byteStep env con pc):=
  keeps_byteStep con (fun _ _ _ hg=>hg) env fun _ hw=>hw
 refine (hkeeps f ⟨fun _ _ hw=>hw.elim,hf⟩).mono ?_
 rintro (e|⟨r,f'⟩) h
 ·trivial
 exact h.2.2

end GoCoupe.EvmGasSign
