import GoCoupe.RlpRawSplitting

/-!
# The RLP input stream

`Stream` of `rlp/decode.go` over a reader of bytes. It keeps the kind and size of the value
ahead, a limit on the input, and a stack of the lists that have been entered. A position never
passes the size of its list, so their difference does not wrap.
-/

namespace GoCoupe.RlpStream

open BigEndianBytes RlpRawSplitting

inductive StreamError where
 | eol
 | eof
 | unexpectedEOF
 | expectedString
 | expectedList
 | canonInt
 | canonSize
 | elemTooLarge
 | valueTooLarge
 | notInList
 | notAtEOL
 | uintOverflow
 | invalidBool (num:ℕ)
 deriving DecidableEq,Repr

structure ListPos where
 pos:ℕ
 size:ℕ
 deriving DecidableEq,Repr

/-- `kind` is `none` where the source stores -1: the next header has not been read. The head
of `stack` is the innermost list. -/
structure Stream where
 r:Bytes
 remaining:ℕ
 limited:Bool
 kind:Option Kind
 size:ℕ
 byteval:UInt8
 kinderr:Option StreamError
 stack:List ListPos

/-- A computation on the stream. An error leaves the stream as it is then; `none` is a loop
that has used up its fuel. -/
def Reading (ε α:Type):Type:=Stream→Option (Except ε α × Stream)

namespace Reading

variable {ε ε' α β:Type}

def andThen (k:α→Reading ε β):Except ε α × Stream→Option (Except ε β × Stream)
 | (.ok a,s)=>k a s
 | (.error e,s)=>some (.error e,s)

instance:Monad (Reading ε) where
 pure a:=fun s=>some (.ok a,s)
 bind m k:=fun s=>(m s).bind (andThen k)

def throw (e:ε):Reading ε α:=fun s=>some (.error e,s)

def get:Reading ε Stream:=fun s=>some (.ok s,s)

def modify (f:Stream→Stream):Reading ε Unit:=fun s=>some (.ok (),f s)

def stuck:Reading ε α:=fun _=>none

/-- Look at the error instead of passing it on. -/
def observe (m:Reading ε α):Reading ε' (Except ε α):=fun s=>
 (m s).map fun x=>(.ok x.1,x.2)

def mapError (f:ε→ε') (m:Reading ε α):Reading ε' α:=fun s=>
 (m s).map fun x=>(x.1.mapError f,x.2)

end Reading

open Reading

abbrev Step (α:Type):=Reading StreamError α

def rearm:Step Unit:=modify fun s=>{s with kind:=none}

def newStream (r:Bytes):Stream:=⟨r,r.length,true,none,0,0,none,[]⟩

/-- Account for `n` bytes, in the innermost list and in the input as a whole. -/
def willRead (n:ℕ):Step Unit:=do
 rearm
 let s ← get
 match s.stack with
 | []=>pure ()
 | tos::rest=>
  if n>tos.size-tos.pos then throw .elemTooLarge
  modify fun s=>{s with stack:={tos with pos:=tos.pos+n} :: rest}
 if s.limited then
  if n>s.remaining then throw .valueTooLarge
  modify fun s=>{s with remaining:=s.remaining-n}

def readByte:Step UInt8:=do
 willRead 1
 let s ← get
 match s.r with
 | []=>throw .unexpectedEOF
 | b::r=>do
  modify fun s=>{s with r:=r}
  return b

def readFull (n:ℕ):Step Bytes:=do
 willRead n
 let s ← get
 modify fun s=>{s with r:=s.r.drop n}
 if n ≤ s.r.length then return s.r.take n else throw .unexpectedEOF

def readUint:ℕ→Step ℕ
 | 0=>do
  rearm
  return 0
 | 1=>do
  let b ← readByte
  return b.toNat
 | size=>do
  let b ← readFull size
  if b.head? = some 0 then throw .canonSize
  return value b

/-- The size that stands in bytes of its own; below 56 it should have been in the tag. -/
def readLongSize (k:Kind) (sizesize:ℕ):Step (Kind × ℕ × Option StreamError):=do
 match ← observe (readUint sizesize) with
 | .error e=>return (k,0,some e)
 | .ok size=>return (k,size,if size<56 then some .canonSize else none)

/-- `readKind`: the kind and size ahead, and the error if there was one. -/
def readKind:Step (Kind × ℕ × Option StreamError):=do
 match ← observe readByte with
 | .error e=>
  let s ← get
  let e:=if s.stack=[] ∧ (e=.unexpectedEOF ∨ e=.valueTooLarge) then .eof else e
  return (.byte,0,some e)
 | .ok b=>
  modify fun s=>{s with byteval:=0}
  if b.toNat<0x80 then
   modify fun s=>{s with byteval:=b}
   return (.byte,0,none)
  else if b.toNat<0xB8 then return (.string,b.toNat-0x80,none)
  else if b.toNat<0xC0 then readLongSize .string (b.toNat-0xB7)
  else if b.toNat<0xF8 then return (.list,b.toNat-0xC0,none)
  else readLongSize .list (b.toNat-0xF7)

/-- The check of a size that has been read: against the input at the top, against the
enclosing list elsewhere. -/
def sizeError (s:Stream) (size:ℕ):Option StreamError:=
 match s.stack with
 | []=>if s.limited ∧ size>s.remaining then some .valueTooLarge else none
 | tos::_=>if size>tos.size-tos.pos then some .elemTooLarge else none

/-- What `Kind` remembers until the value is read. -/
def recallKind:Step (Kind × ℕ):=do
 let s ← get
 match s.kinderr,s.kind with
 | some e,_=>throw e
 | none,some k=>return (k,s.size)
 | none,none=>return (.byte,s.size)

def kind:Step (Kind × ℕ):=do
 let s ← get
 match s.kind with
 | some _=>recallKind
 | none=>do
  modify fun s=>{s with kinderr:=none}
  if s.stack.head?.any fun tos=>tos.pos=tos.size then throw .eol
  let (k,size,err) ← readKind
  let s ← get
  let err:=err.orElse fun _=>sizeError s size
  modify fun s=>{s with kind:=some k,size:=size,kinderr:=err}
  recallKind

def bytes:Step Bytes:=do
 let (k,size) ← kind
 match k with
 | .byte=>do
  rearm
  let s ← get
  return [s.byteval]
 | .string=>do
  let b ← readFull size
  if size=1 ∧ b.head?.any fun x=>x.toNat<128 then throw .canonSize
  return b
 | .list=>throw .expectedString

/-- `Raw`: the content of the value under a new header, written with the tags `0x80` and `0xB8`
for a string. -/
def raw:Step Bytes:=do
 let (k,size) ← kind
 match k with
 | .byte=>do
  rearm
  let s ← get
  return [s.byteval]
 | .string=>do
  let b ← readFull size
  return RlpEncoding.puthead 0x80 0xB8 size++b
 | .list=>do
  let b ← readFull size
  return RlpEncoding.puthead 0xC0 0xF7 size++b

def uint (maxbits:ℕ):Step ℕ:=do
 let (k,size) ← kind
 match k with
 | .byte=>do
  let s ← get
  if s.byteval=0 then throw .canonInt
  rearm
  return s.byteval.toNat
 | .string=>do
  if size>maxbits/8 then throw .uintOverflow
  match ← observe (readUint size) with
  | .error .canonSize=>throw .canonInt
  | .error e=>throw e
  | .ok v=>if size>0 ∧ v<128 then throw .canonSize else return v
 | .list=>throw .expectedString

def bool:Step Bool:=do
 match ← uint 8 with
 | 0=>return false
 | 1=>return true
 | num=>throw (.invalidBool num)

def list:Step ℕ:=do
 let (k,size) ← kind
 if k≠.list then throw .expectedList
 modify fun s=>{s with stack:=⟨0,size⟩::s.stack,kind:=none,size:=0}
 return size

def addPos (n:ℕ):List ListPos→List ListPos
 | []=>[]
 | tos::rest=>{tos with pos:=tos.pos+n} :: rest

/-- Leave a list, which must have been read to its end. -/
def listEnd:Step Unit:=do
 let s ← get
 match s.stack with
 | []=>throw .notInList
 | tos::rest=>
  if tos.pos≠tos.size then throw .notAtEOL
  modify fun s=>{s with stack:=addPos tos.size rest,kind:=none,size:=0}

end GoCoupe.RlpStream
