import GoCoupe.InteractionPrograms
import GoCoupe.EvmOpCodes
import GoCoupe.EvmMemory

/-!
# The machine that contract code runs on

A running contract has a stack, a memory and gas, and asks its surroundings: the state
database, and the environment for calls and creations. In the monad `Vm` an instruction can
fail with an error, and a panic of the source is a crash.
-/

namespace GoCoupe.EvmMachine

open InteractionPrograms EvmOpCodes

/-- Hashing and public key recovery, which come from other packages. -/
structure Crypto where
 sha3:Bytes→Hash
 sha256:Bytes→Bytes
 ripemd160:Bytes→Bytes
 ecrecover:Bytes→Bytes→Option Bytes

/-- What the virtual machine reads of the `Environment` beside the state database; it stays
the same while a message is executed. -/
structure Environment where
 crypto:Crypto
 origin:Address
 coinbase:Address
 blockNumber:ℤ
 time:ℤ
 difficulty:ℤ
 gasLimit:ℤ
 getHash:ℕ→Hash

structure Contract where
 self:Address
 caller:Address
 code:Bytes
 input:Bytes
 codeAddr:Option Address
 value:ℤ
 price:ℤ

structure Log where
 address:Address
 topics:List Hash
 data:Bytes
 blockNumber:ℕ
 deriving DecidableEq

inductive CallKind where
 | call
 | callCode
 deriving DecidableEq

/-- What `Call`, `CallCode` and `Create` of the environment hand back; `gas` is what the
caller gets through `ReturnGas`. -/
structure CallResult where
 failed:Bool
 ret:Bytes
 address:Address
 gas:ℤ

inductive Query where
 | getBalance (a:Address)
 | getCode (a:Address)
 | getState (a:Address) (key:Hash)
 | setState (a:Address) (key value:Hash)
 | setCode (a:Address) (code:Bytes)
 | addRefund (gas:ℤ)
 | isDeleted (a:Address)
 | exist (a:Address)
 | addBalance (a:Address) (amount:ℤ)
 | delete (a:Address)
 | addLog (log:Log)
 | call (kind:CallKind) (me addr:Address) (data:Bytes) (gas price value:ℤ)
 | create (me:Address) (data:Bytes) (gas price value:ℤ)

def Query.Answer:Query→Type
 | getBalance _=>ℤ
 | getCode _=>Bytes
 | getState _ _=>Hash
 | isDeleted _=>Bool
 | exist _=>Bool
 | delete _=>Bool
 | call _ _ _ _ _ _ _=>CallResult
 | create _ _ _ _ _=>CallResult
 | setState _ _ _=>Unit
 | setCode _ _=>Unit
 | addRefund _=>Unit
 | addBalance _ _=>Unit
 | addLog _=>Unit

/-- The errors of the virtual machine with the values their texts show. The two loops word
an invalid opcode differently. -/
inductive VmError where
 | outOfGas
 | stackUnderflow (len need:ℕ)
 | stackLimit (len:ℕ)
 | invalidJump (op:OpCode) (dest:ℤ)
 | invalidOpcode (op:OpCode)
 | invalidOpcode0x (op:OpCode)
 deriving DecidableEq

/-- The head of the stack is its top. -/
structure Frame where
 stack:List ℤ
 mem:Bytes
 gas:ℤ

/-- An empty stack, an empty memory and the gas the contract starts with. -/
def Frame.init (gas:ℤ):Frame:=⟨[],[],gas⟩

def Vm (α:Type):Type:=Frame→Prog Query.Answer (Except VmError (α × Frame))

namespace Vm

variable {α β γ:Type}

/-- What follows a computation; an error skips it. -/
def andThen (k:α→Vm β):Except VmError (α × Frame)→Prog Query.Answer (Except VmError (β × Frame))
 | .ok (a,f)=>k a f
 | .error e=>.done (.error e)

instance:Monad Vm where
 pure a:=fun f=>.done (.ok (a,f))
 bind m k:=fun f=>m f>>=andThen k

@[simp] lemma pure_apply(a:α)(f:Frame):(pure a:Vm α) f=.done (.ok (a,f)):=rfl

lemma bind_apply(m:Vm α)(k:α→Vm β)(f:Frame):(m>>=k) f = m f>>=andThen k:=rfl

@[simp] lemma andThen_ok(k:α→Vm β)(a:α)(f:Frame):andThen k (.ok (a,f))=k a f:=rfl

@[simp] lemma andThen_error(k:α→Vm β)(e:VmError):andThen k (.error e)=.done (.error e):=rfl

lemma pure_bind(a:α)(k:α→Vm β):pure a>>=k = k a:=rfl

lemma bind_assoc(m:Vm α)(k:α→Vm β)(l:β→Vm γ):(m>>=k)>>=l = m>>=fun a=>k a>>=l:=by
 funext f
 rw[bind_apply,bind_apply,bind_apply,Prog.bind_assoc]
 refine congrArg _ (funext fun r=>?_)
 rcases r with e|⟨a,f⟩<;>rfl

def throw (e:VmError):Vm α:=fun _=>.done (.error e)

def crash:Vm α:=fun _=>.crash

def ask (q:Query):Vm q.Answer:=fun f=>.ask q fun r=>.done (.ok (r,f))

def get:Vm Frame:=fun f=>.done (.ok (f,f))

def set (f:Frame):Vm Unit:=fun _=>.done (.ok ((),f))

/-- The value of an operation that panics on `none`. -/
def ofOption:Option α→Vm α
 | some a=>pure a
 | none=>crash

@[simp] lemma throw_apply(e:VmError)(f:Frame):(throw e:Vm α) f=.done (.error e):=rfl

@[simp] lemma crash_apply(f:Frame):(crash:Vm α) f=.crash:=rfl

@[simp] lemma ask_apply(q:Query)(f:Frame):ask q f=.ask q fun r=>.done (.ok (r,f)):=rfl

@[simp] lemma get_apply(f:Frame):get f=.done (.ok (f,f)):=rfl

@[simp] lemma set_apply(f g:Frame):set g f=.done (.ok ((),g)):=rfl

end Vm

open Vm

def push (x:ℤ):Vm Unit:=do
 let f ← get
 set {f with stack:=x::f.stack}

def pop:Vm ℤ:=do
 let f ← get
 match f.stack with
 | []=>crash
 | x::rest=>do
  set {f with stack:=rest}
  return x

/-- The item `stack.data[stack.len()-n]`. -/
def back (n:ℕ):Vm ℤ:=do
 let f ← get
 match n with
 | 0=>crash
 | n+1=>ofOption f.stack[n]?

def peek:Vm ℤ:=back 1

def dup (n:ℕ):Vm Unit:=do
 let x ← back n
 push x

def swap (n:ℕ):Vm Unit:=do
 let x ← back n
 let y ← back 1
 let f ← get
 set {f with stack:=(f.stack.set (n-1) y).set 0 x}

def require (n:ℕ):Vm Unit:=do
 let f ← get
 if f.stack.length<n then throw (.stackUnderflow f.stack.length n)

/-- `UseGas`: whether there was enough gas; if not, none is used. -/
def useGas (amount:ℤ):Vm Bool:=do
 let f ← get
 if f.gas<amount then return false
 set {f with gas:=f.gas-amount}
 return true

def returnGas (gas:ℤ):Vm Unit:=do
 let f ← get
 set {f with gas:=f.gas+gas}

def memoryGet (offset size:ℤ):Vm Bytes:=do
 let f ← get
 ofOption (EvmMemory.get f.mem offset size)

def memoryGetPtr (offset size:ℤ):Vm Bytes:=do
 let f ← get
 ofOption (EvmMemory.getPtr f.mem offset size)

/-- Replace the memory by the outcome of an assignment to a part of it. -/
def memoryAssign (assign:Bytes→Option Bytes):Vm Unit:=do
 let f ← get
 let mem ← ofOption (assign f.mem)
 set {f with mem:=mem}

def memorySet (offset size:ℕ) (value:Bytes):Vm Unit:=
 memoryAssign fun mem=>EvmMemory.set mem offset size value

def memorySetByte (off:ℤ) (b:UInt8):Vm Unit:=memoryAssign fun mem=>EvmMemory.setByte mem off b

def memoryResize (size:ℕ):Vm Unit:=do
 let f ← get
 set {f with mem:=EvmMemory.resize f.mem size}

variable (s:List ℤ) (m:Bytes) (g:ℤ)

@[simp] lemma push_apply(x:ℤ):push x ⟨s,m,g⟩=.done (.ok ((),⟨x::s,m,g⟩)):=rfl

@[simp] lemma back_apply(n:ℕ):back (n+1) ⟨s,m,g⟩=ofOption s[n]? ⟨s,m,g⟩:=rfl

@[simp] lemma peek_apply(x:ℤ):peek ⟨x::s,m,g⟩=.done (.ok (x,⟨x::s,m,g⟩)):=rfl

@[simp] lemma ofOption_none:(ofOption none:Vm α)=crash:=rfl

lemma require_apply(n:ℕ):require n ⟨s,m,g⟩ =
 if s.length<n then .done (.error (.stackUnderflow s.length n))
 else .done (.ok ((),⟨s,m,g⟩)):=by
 rw[require,bind_apply,get_apply,Prog.done_bind,andThen_ok]
 split<;>rfl

lemma require_of_le(h:n ≤ s.length):require n ⟨s,m,g⟩=.done (.ok ((),⟨s,m,g⟩)):=by
 rw[require_apply,if_neg (by omega)]

lemma useGas_apply(amount:ℤ):useGas amount ⟨s,m,g⟩ = if g<amount then .done (.ok (false,⟨s,m,g⟩))
 else .done (.ok (true,⟨s,m,g-amount⟩)):=by
 rw[useGas,bind_apply,get_apply,Prog.done_bind,andThen_ok]
 split<;>rfl

lemma useGas_of_le(h:amount≤g):useGas amount ⟨s,m,g⟩=.done (.ok (true,⟨s,m,g-amount⟩)):=by
 rw[useGas_apply,if_neg (by omega)]

lemma useGas_of_lt(h:g<amount):useGas amount ⟨s,m,g⟩=.done (.ok (false,⟨s,m,g⟩)):=by
 rw[useGas_apply,if_pos h]

@[simp] lemma returnGas_apply(x:ℤ):returnGas x ⟨s,m,g⟩=.done (.ok ((),⟨s,m,g+x⟩)):=rfl

@[simp] lemma memoryResize_apply(n:ℕ):
 memoryResize n ⟨s,m,g⟩=.done (.ok ((),⟨s,EvmMemory.resize m n,g⟩)):=rfl

end GoCoupe.EvmMachine
