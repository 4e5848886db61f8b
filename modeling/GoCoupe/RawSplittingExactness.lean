import GoCoupe.NodeDecodingPanics
import GoCoupe.RlpStreamReading

/-!
# Raw splitting is exact

What `Split` takes off its input is the encoding of the content that it returns, and what
`CountValues` accepts is a sequence of such encodings. Both panic on an input that is cut off
behind a byte `0x81`.
-/

namespace GoCoupe.RawSplittingExactness
open RlpEncoding BigEndianBytes RlpRawSplitting EmbeddedNodes NodeDecodingPanics RlpStreamReading
open List

/-- The encoding of a content under its kind. -/
def encodeAs (k:Kind) (content:Bytes):Bytes:=
 if k=.list then puthead 0xC0 0xF7 content.length++content else encodeString content

variable {b rest content:Bytes} {k:Kind} {ts cs:ℕ}

lemma readSize_exact(h:Ends (readSize b m) size)(h1:1 ≤ m)(h8:m≤8):
 56 ≤ size∧intsize size=m∧b.take m=putint size:=by
 have hle:=readSize_ends h
 rw[readSize,if_neg (by omega)]at h
 split at h
 ·exact absurd h not_ends_throw
 next hcanon =>
 obtain rfl:=ends_pure h
 rw[not_or]at hcanon
 have hlen:(b.take m).length=m:=by rw[length_take,min_eq_left hle]
 have hput:putint (value (b.take m))=b.take m:=by
  refine putint_value (by omega) (by omega) (.inr ?_)
  rw[head?_take,if_neg (by omega)]
  exact hcanon.2
 refine⟨by omega,?_,hput.symm⟩
 rw[←putint_length,hput,hlen]

/-- A tag is the byte itself or the header of the content. -/
lemma readTag_exact{x:UInt8}{tail:Bytes}(h:Ends (readTag x tail) (k,ts,cs)):
 k=.byte∧ts=0∧cs=1∧x.toNat<128∨
  k=.string∧(x::tail).take ts=puthead 0x80 0xB7 cs∧ts≠0∧(cs=1→ts=1∧∀c∈tail.head?,128≤c.toNat)∨
  k=.list∧(x::tail).take ts=puthead 0xC0 0xF7 cs∧ts≠0:=by
 have hlong:∀{t l:UInt8} {m size:ℕ},Ends (readSize tail m) size→x.toNat=l.toNat+m →
  1 ≤ m→m≤8 → 56 ≤ size∧(x::tail).take (m+1)=puthead t l size:=by
  intro t l m size h hx h1 h8
  obtain⟨h56,hsize,htake⟩:=readSize_exact h h1 h8
  rw[take_succ_cons,htake,puthead_large t (b:=x) h56 (by omega)]
  exact⟨h56,rfl⟩
 have hx:=x.toNat_lt
 unfold readTag at h
 split at h
 ·next hlt =>
  cases ends_pure h
  exact .inl ⟨rfl,rfl,rfl,hlt⟩
 split at h
 ·next hlo hhi =>
  have hput:=puthead_small (t:=0x80) (b:=x) 0xB7 (by simp;omega) (by simp;omega)
  split at h
  ·next hone =>
   split at h
   ·exact absurd h not_ends_crash
   next c tail =>
   split at h
   ·exact absurd h not_ends_throw
   next hc =>
   cases ends_pure h
   rw[show (0x80:UInt8).toNat=0x80 from rfl,hone]at hput
   exact .inr (.inl ⟨rfl,hput.symm,by decide,fun _=>⟨rfl,by simpa using hc⟩⟩)
  next hone =>
  cases ends_pure h
  exact .inr (.inl ⟨rfl,hput.symm,by decide,fun h=>absurd h hone⟩)
 split at h
 ·obtain⟨size,hsize,h⟩:=ends_bind h
  cases ends_pure h
  obtain⟨h56,htake⟩:=hlong (t:=0x80) (l:=0xB7) hsize (by simp;omega) (by omega) (by omega)
  exact .inr (.inl ⟨rfl,htake,by omega,fun h=>by omega⟩)
 split at h
 ·cases ends_pure h
  exact .inr (.inr ⟨rfl,(puthead_small (t:=0xC0) 0xF7 (by simp;omega) (by simp;omega)).symm,by decide⟩)
 obtain⟨size,hsize,h⟩:=ends_bind h
 cases ends_pure h
 obtain⟨h56,htake⟩:=hlong (t:=0xC0) (l:=0xF7) hsize (by simp;omega) (by omega) (by omega)
 exact .inr (.inr ⟨rfl,htake,by omega⟩)

/-- The tag, the content and the rest are the input, and the tag is that of the content. -/
lemma split_exact(h:Ends (split b) (k,content,rest)):
 ∃tag,b=tag++content++rest∧encodeAs k content=tag++content:=by
 obtain⟨⟨k',ts,cs⟩,hk,h⟩:=ends_bind h
 cases ends_pure h
 obtain⟨x,tail,rfl,ht,hle⟩:=readKind_ends hk
 have hlen:(((x::tail).drop ts).take cs).length=cs:=by
  rw[length_take,length_drop,min_eq_left hle]
 refine⟨(x::tail).take ts,?_,?_⟩
 ·rw[←take_add,take_append_drop]
 rcases readTag_exact ht with⟨rfl,rfl,rfl,hx⟩|⟨rfl,htake,hts,hone⟩|⟨rfl,htake,hts⟩
 ·rcases encodeString_cases [x] with⟨y,hy,-,henc,-⟩|⟨hc,-⟩
  ·simpa[encodeAs,List.singleton_inj.mp hy]using henc
  exact absurd (hc x rfl) (by omega)
 ·rw[encodeAs,if_neg (by decide),htake]
  rcases encodeString_cases (((x::tail).drop ts).take cs) with⟨y,hy,hlt,-⟩|⟨-,henc,-⟩
  ·rw[hy]at hlen
   obtain⟨rfl,hhead⟩:=hone hlen.symm
   have hmem:tail.head? = some y:=by
    rw[←hlen]at hy
    simpa[head?_take]using congrArg List.head? hy
   exact absurd (hhead y hmem) (by omega)
  rw[henc,hlen]
 rw[encodeAs,if_pos rfl,hlen,htake]

lemma countFrom_exact(fuel:ℕ)(h:Ends (countValues.go fuel b i) n):
 ∃vs:List (Kind × Bytes),n=i+vs.length∧b=(vs.map fun v=>encodeAs v.1 v.2).flatten:=by
 induction fuel generalizing b i with
 | zero=>
  cases b with
  | nil=>exact⟨[],(ends_pure h).symm,rfl⟩
  | cons x tail=>exact absurd h not_ends_crash
 | succ fuel ih=>
  cases b with
  | nil=>exact⟨[],(ends_pure h).symm,rfl⟩
  | cons x tail=>
   obtain⟨⟨k,ts,cs⟩,hk,h⟩:=ends_bind h
   have hs:Ends (split (x::tail)) (k,((x::tail).drop ts).take cs,(x::tail).drop (ts+cs)):=by
    rw[Ends,split,ExceptT.run_bind,hk]
    rfl
   obtain⟨tag,hb,henc⟩:=split_exact hs
   obtain⟨vs,rfl,hrest⟩:=ih h
   refine⟨(k,((x::tail).drop ts).take cs)::vs,by rw[length_cons];omega,?_⟩
   rw[map_cons,flatten_cons,←hrest,henc]
   exact hb

/-- `Split` and `CountValues` panic exactly on inputs that are cut off behind a byte `0x81`, and
whatever they accept is the encoding of what they return. -/
theorem raw_splitting_exact (b : Bytes) :
    ((Panics (split b) ↔ b = [0x81]) ∧ (Panics (splitString b) ↔ b = [0x81]) ∧
      (Panics (splitList b) ↔ b = [0x81]) ∧ (Panics (countValues b) ↔ Cut b)) ∧
    (∀ k content rest, Ends (split b) (k, content, rest) →
      ∃ tag, b = tag ++ content ++ rest ∧ encodeAs k content = tag ++ content) ∧
    ∀ n, Ends (countValues b) n → ∃ vs : List (Kind × Bytes),
      vs.length = n ∧ b = (vs.map fun v => encodeAs v.1 v.2).flatten := by
 refine⟨⟨panics_split,panics_splitString,panics_splitList,?_⟩,fun _ _ _=>split_exact,?_⟩
 · exact panics_countFrom b.length b 0 le_rfl
 intro n h
 obtain⟨vs,rfl,hb⟩:=countFrom_exact b.length h
 exact⟨vs,(Nat.zero_add _).symm,hb⟩

theorem split_lone_tag_panics : Panics (split [0x81]) ∧ Panics (countValues [0x05, 0x81]) :=
 ⟨rfl,rfl⟩

end GoCoupe.RawSplittingExactness
