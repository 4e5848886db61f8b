import Mathlib.Data.Vector.Basic
import GoCoupe.RlpStream

/-!
# Encoding and decoding Go values

What `makeWriter` of `rlp/encode.go` and `makeDecoder` of `rlp/decode.go` do for a Go type.
Slices and arrays of bytes have constructors of their own, a struct lists its exported fields,
and an interface holds a tree of byte strings and lists.
-/

namespace GoCoupe.RlpTypedValues

open RlpEncoding RlpStream Reading BigEndianBytes

inductive Width where
 | w8
 | w16
 | w32
 | w64
 deriving DecidableEq

def Width.bits:Width→ℕ
 | w8=>8
 | w16=>16
 | w32=>32
 | w64=>64

mutual

inductive GoType where
 | uint (w:Width)
 | bool
 | bigInt
 | string
 | bytes
 | byteArray (n:ℕ)
 | slice (elem:GoType)
 | array (n:ℕ) (elem:GoType)
 | struct (fields:Fields)
 | interface

inductive Fields where
 | nil
 | cons (name:String) (typ:GoType) (rest:Fields)

end

mutual

/-- The values of a type; a nil slice is not told from an empty one. -/
def GoType.Value:GoType→Type
 | .uint w=>BitVec w.bits
 | .bool=>Bool
 | .bigInt=>ℤ
 | .string=>Bytes
 | .bytes=>Bytes
 | .byteArray n=>List.Vector UInt8 n
 | .slice t=>List t.Value
 | .array n t=>List.Vector t.Value n
 | .struct fs=>fs.Values
 | .interface=>Item

def Fields.Values:Fields→Type
 | .nil=>Unit
 | .cons _ t fs=>t.Value × fs.Values

end

inductive EncodeError where
 | negativeBigInt
 deriving DecidableEq,Repr

abbrev Writing:=Except EncodeError EncBuf

def append (w:EncBuf) (b:Bytes):EncBuf:={w with str:=w.str++b}

def writeUint (i:ℕ) (w:EncBuf):EncBuf:=if i=0 then append w [0x80]
 else if i<128 then append w [UInt8.ofNat i]
 else append w ((0x80+UInt8.ofNat (putint i).length)::putint i)

def writeBool (b:Bool) (w:EncBuf):EncBuf:=if b then append w [0x01] else append w [0x80]

def writeBigInt (i:ℤ) (w:EncBuf):Writing:=if i<0 then .error .negativeBigInt
 else if i=0 then .ok (append w [0x80])
 else .ok (w.encodeString (shortest i.toNat))

/-- The writer of slices, arrays and structs: the elements between `list` and `listEnd`. -/
def writeList (elements:EncBuf→Writing) (w:EncBuf):Writing:=do
 let (opened,lh):=w.list
 let written ← elements opened
 return written.listEnd lh

def writeElements {α:Type} (writer:α→EncBuf→Writing):List α→EncBuf→Writing
 | [],w=>.ok w
 | x::xs,w=>do writeElements writer xs (← writer x w)

mutual

def writer:(t:GoType)→t.Value→EncBuf→Writing
 | .uint _,(x:BitVec _),w=>.ok (writeUint x.toNat w)
 | .bool,(b:Bool),w=>.ok (writeBool b w)
 | .bigInt,(i:ℤ),w=>writeBigInt i w
 | .string,(b:Bytes),w=>.ok (w.encodeString b)
 | .bytes,(b:Bytes),w=>.ok (w.encodeString b)
 | .byteArray _,(b:List.Vector UInt8 _),w=>.ok (w.encodeString b.toList)
 | .slice t,(xs:List t.Value),w=>writeList (writeElements (writer t) xs) w
 | .array _ t,(xs:List.Vector t.Value _),w=>
  writeList (writeElements (writer t) xs.toList) w
 | .struct fs,(xs:fs.Values),w=>writeList (fieldsWriter fs xs) w
 | .interface,(x:Item),w=>.ok (w.writeItem x)

def fieldsWriter:(fs:Fields)→fs.Values→EncBuf→Writing
 | .nil,_,w=>.ok w
 | .cons _ t fs,(xs:t.Value × fs.Values),w=>do fieldsWriter fs xs.2 (← writer t xs.1 w)

end

/-- The loop of `toBytes`: `out` has been written so far, of `size` bytes in all. Writing a
header beyond the end is a panic. -/
def toBytesFrom (size:ℕ) (str:Bytes):List ListHead→Bytes→ℕ→Option Bytes
 | [],out,strpos=>
  let out:=out++(str.drop strpos).take (size-out.length)
  some (out++List.replicate (size-out.length) 0)
 | head::heads,out,strpos=>
  let piece:=((str.take head.offset).drop strpos).take (size-out.length)
  if out.length+piece.length+head.encode.length ≤ size then
   toBytesFrom size str heads (out++piece++head.encode) (strpos+piece.length)
  else none

def toBytes (w:EncBuf):Option Bytes:=toBytesFrom w.size w.str w.lheads [] 0

/-- `EncodeToBytes`; `none` is a panic. -/
def encodeToBytes (t:GoType) (x:t.Value):Except EncodeError (Option Bytes):=do
 return toBytes (← writer t x .empty)

inductive Context where
 | index (i:ℕ)
 | field (name:String)
 | target (t:GoType)

inductive DecodeError where
 | stream (e:StreamError)
 | decode (msg:String) (typ:GoType) (ctx:List Context)
 | moreThanOneValue

abbrev Decoder (α:Type):=Reading DecodeError α

def lift {α:Type} (m:Step α):Decoder α:=mapError .stream m

def wrapStreamError (typ:GoType):StreamError→DecodeError
 | .canonInt=>.decode "non-canonical integer (leading zero bytes)" typ []
 | .canonSize=>.decode "non-canonical size information" typ []
 | .expectedList=>.decode "expected input list" typ []
 | .expectedString=>.decode "expected input string or byte" typ []
 | .uintOverflow=>.decode "input string too long" typ []
 | .notAtEOL=>.decode "input list has too many elements" typ []
 | e=>.stream e

/-- A step whose errors are reported for a type. -/
def wrap {α:Type} (typ:GoType) (m:Step α):Decoder α:=mapError (wrapStreamError typ) m

def addErrorContext (ctx:Context):DecodeError→DecodeError
 | .decode msg typ cs=>.decode msg typ (cs++[ctx])
 | e=>e

def decodeUint (w:Width):Decoder (BitVec w.bits):=do
 let num ← wrap (.uint w) (uint w.bits)
 return BitVec.ofNat _ num

def decodeBigInt:Decoder ℤ:=do
 let b ← wrap .bigInt bytes
 if b.head? = some 0 then Reading.throw (wrapStreamError .bigInt .canonInt)
 return value b

/-- The loop of `decodeListSlice` from element `i` on. -/
def sliceElements {α:Type} (elemdec:Decoder α):ℕ→ℕ→Decoder (List α)
 | 0,_=>stuck
 | fuel+1,i=>do
  match ← observe elemdec with
  | .ok x=>do
   let xs ← sliceElements elemdec fuel (i+1)
   return x::xs
  | .error (.stream .eol)=>return []
  | .error e=>Reading.throw (addErrorContext (.index i) e)

def decodeListSlice {α:Type} (fuel:ℕ) (typ:GoType) (elemdec:Decoder α):Decoder (List α):=do
 let size ← wrap typ list
 if size=0 then
  lift listEnd
  return []
 else
  let xs ← sliceElements elemdec fuel 0
  lift listEnd
  return xs

/-- The loop of `decodeListArray` for `n` elements from element `i` on; `none` when the list
has ended before. -/
def arrayElements {α:Type} (elemdec:Decoder α):(n:ℕ)→ℕ→Decoder (Option (List.Vector α n))
 | 0,_=>return some .nil
 | n+1,i=>do
  match ← observe elemdec with
  | .ok x=>do
   let xs ← arrayElements elemdec n (i+1)
   return xs.map (.cons x)
  | .error (.stream .eol)=>return none
  | .error e=>Reading.throw (addErrorContext (.index i) e)

def decodeListArray {α:Type} (typ:GoType) (n:ℕ) (elemdec:Decoder α):Decoder (List.Vector α n):=do
 let _ ← wrap typ list
 match ← arrayElements elemdec n 0 with
 | none=>Reading.throw (.decode "input list has too few elements" typ [])
 | some xs=>do
  wrap typ listEnd
  return xs

/-- The case of a single byte. An error of `Uint` is not looked at, the byte is zero then. -/
def decodeOneByte:(n:ℕ)→Decoder (List.Vector UInt8 n)
 | 0=>Reading.throw (.decode "input string too long" (.byteArray 0) [])
 | 1=>do
  match ← (observe (uint 64):Decoder (Except StreamError ℕ)) with
  | .ok bv=>return .cons (UInt8.ofNat bv) .nil
  | .error _=>return .cons 0 .nil
 | n+2=>Reading.throw (.decode "input string too short" (.byteArray (n+2)) [])

def decodeByteArray (n:ℕ):Decoder (List.Vector UInt8 n):=do
 let (k,size) ← lift kind
 match k with
 | .byte=>decodeOneByte n
 | .string=>do
  if n < size then Reading.throw (.decode "input string too long" (.byteArray n) [])
  if n>size then Reading.throw (.decode "input string too short" (.byteArray n) [])
  let slice ← lift (readFull n)
  if size=1 ∧ slice.head?.any fun x=>x.toNat<128 then
   Reading.throw (wrapStreamError (.byteArray n) .canonSize)
  if h:slice.length=n then return ⟨slice,h⟩ else stuck
 | .list=>Reading.throw (wrapStreamError (.byteArray n) .expectedString)

def decodeInterface:ℕ→Decoder Item
 | 0=>stuck
 | fuel+1=>do
  let (k,_) ← lift kind
  if k=.list then
   let xs ← decodeListSlice fuel (.slice .interface) (decodeInterface fuel)
   return .list xs
  else
   let b ← lift bytes
   return .string b

mutual

def decoder (fuel:ℕ):(t:GoType)→Decoder t.Value
 | .uint w=>decodeUint w
 | .bool=>wrap .bool bool
 | .bigInt=>decodeBigInt
 | .string=>wrap .string bytes
 | .bytes=>wrap .bytes bytes
 | .byteArray n=>decodeByteArray n
 | .slice t=>decodeListSlice fuel (.slice t) (decoder fuel t)
 | .array n t=>decodeListArray (.array n t) n (decoder fuel t)
 | .struct fs=>do
  let _ ← wrap (.struct fs) list
  let xs ← fieldsDecoder fuel (.struct fs) fs
  wrap (.struct fs) listEnd
  return xs
 | .interface=>decodeInterface fuel

def fieldsDecoder (fuel:ℕ) (typ:GoType):(fs:Fields)→Decoder fs.Values
 | .nil=>return ()
 | .cons name t fs=>do
  match ← observe (decoder fuel t) with
  | .ok x=>do
   let xs ← fieldsDecoder fuel typ fs
   return (x,xs)
  | .error (.stream .eol)=>Reading.throw (.decode "too few elements" typ [])
  | .error e=>Reading.throw (addErrorContext (.field name) e)

end

/-- `Stream.Decode` names the target in an error that has a context. -/
def nameTarget (t:GoType):DecodeError→DecodeError
 | .decode msg typ (c::cs)=>.decode msg typ (c::cs++[.target t])
 | e=>e

/-- `DecodeBytes`; `none` when the fuel does not suffice. -/
def decodeBytes (fuel:ℕ) (t:GoType) (b:Bytes):Option (Except DecodeError t.Value):=
 match mapError (nameTarget t) (decoder fuel t) (newStream b) with
 | none=>none
 | some (.error e,_)=>some (.error e)
 | some (.ok x,s)=>if s.r.length>0 then some (.error .moreThanOneValue) else some (.ok x)

end GoCoupe.RlpTypedValues
