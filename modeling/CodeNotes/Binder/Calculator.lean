import CodeNotes.Binder.Parcel

/-!
# The calculator service

Two client and server pairs speak about `add` over parcels.  The generated pair, both classes
nested in `ICalculator.java`, and the hand-split pair `com.binder.douyin.Proxy` and
`com.binder.weixin.Stub`.  Both clients write an interface token in front of the arguments; the
generated server skips it (`generated_add`, `generated_basicTypes`), the hand-split one reads the
first two words of the token as its arguments (`handSplit_add`).
-/

namespace CodeNotes.Binder

open Parcel

/-- `IBinder.FIRST_CALL_TRANSACTION` of the platform. -/
def FIRST_CALL_TRANSACTION : Int32 := 1

/-- `IBinder.INTERFACE_TRANSACTION` of the platform. -/
def INTERFACE_TRANSACTION : Int32 := 0x5f4e5446

/-- The arguments of `basicTypes`; a float and a double are their raw bits. -/
structure BasicTypes where
  anInt : Int32
  aLong : Int64
  aBoolean : Bool
  aFloat : Int32
  aDouble : Int64
  aString : Option JString
  deriving DecidableEq

/-- A call that reached the server's implementation. -/
inductive Call where
  | add (a b : Int32)
  | basicTypes (args : BasicTypes)
  deriving DecidableEq

/-- A transaction under way: both parcels and the calls made so far. -/
structure Transaction where
  data : Parcel
  reply : Parcel
  calls : List Call

/-- `onTransact(code, data, reply, 0)`: the server's answer, or an exception. -/
abbrev OnTransact := Int32 → Transaction → Option (Bool × Transaction)

/-- What is outside the repository: the platform's header words and `Binder.onTransact`. -/
structure Platform where
  header : List Int32
  onTransact : OnTransact

def DESCRIPTOR : JString := jstring "com.binder.ICalculator"

section Model

variable (platform : Platform) (f : Int32 → Int32 → Int32)

/-- The body of `TRANSACTION_add` both servers share. -/
def serveAdd (t : Transaction) : Transaction :=
  let (_arg0, data) := t.data.readInt
  let (_arg1, data) := data.readInt
  let _result := f _arg0 _arg1
  let reply := t.reply.writeNoException.writeInt _result
  { data, reply, calls := t.calls ++ [.add _arg0 _arg1] }

/-- `mRemote.transact(code, _data, _reply, 0)` with a fresh `_reply`. -/
def transact (onTransact : OnTransact) (code : Int32) (data : Parcel) :
    Option (Bool × Transaction) :=
  onTransact code { data, reply := Parcel.obtain, calls := [] }

/-- The parcel both clients send for `add`. -/
def addData (a b : Int32) : Parcel :=
  ((writeInterfaceToken platform.header Parcel.obtain DESCRIPTOR).writeInt a).writeInt b

/-! ### The hand-split pair -/

namespace HandSplit

def TRANSACTION_add : Int32 := FIRST_CALL_TRANSACTION + 1

/-- `com.binder.weixin.Stub.onTransact` over the implementation `f`. -/
def onTransact : OnTransact := fun code t =>
  if code = INTERFACE_TRANSACTION then some (true, t)
  else if code = TRANSACTION_add then some (true, serveAdd f t)
  else platform.onTransact code t

/-- `com.binder.douyin.Proxy.add`: the returned value and the calls the server made. -/
def add (a b : Int32) : Option (Int32 × List Call) := do
  let (_, t) ← transact (onTransact platform f) TRANSACTION_add (addData platform a b)
  let _reply ← t.reply.readException
  return (_reply.readInt.1, t.calls)

end HandSplit

/-! ### The generated pair -/

namespace Generated

def TRANSACTION_basicTypes : Int32 := FIRST_CALL_TRANSACTION + 0

def TRANSACTION_add : Int32 := FIRST_CALL_TRANSACTION + 1

/-- The body of `TRANSACTION_basicTypes`. -/
def serveBasicTypes (t : Transaction) : Transaction :=
  let (_arg0, data) := t.data.readInt
  let (_arg1, data) := data.readLong
  let (flag, data) := data.readInt
  let _arg2 := decide (0 ≠ flag)
  let (_arg3, data) := data.readInt
  let (_arg4, data) := data.readLong
  let (_arg5, data) := data.readString
  { data, reply := t.reply.writeNoException
    calls := t.calls ++ [.basicTypes ⟨_arg0, _arg1, _arg2, _arg3, _arg4, _arg5⟩] }

/-- `ICalculator.Stub.onTransact` over the implementation `f` of `add`. -/
def onTransact : OnTransact := fun code t =>
  if code = INTERFACE_TRANSACTION then
    some (true, { t with reply := t.reply.writeString (some DESCRIPTOR) })
  else if code = TRANSACTION_basicTypes then do
    let data ← enforceInterface platform.header t.data DESCRIPTOR
    return (true, serveBasicTypes { t with data })
  else if code = TRANSACTION_add then do
    let data ← enforceInterface platform.header t.data DESCRIPTOR
    return (true, serveAdd f { t with data })
  else platform.onTransact code t

/-- `ICalculator.Stub.Proxy.add`; `sDefaultImpl` answers when the server does not. -/
def add (sDefaultImpl : Option (Int32 → Int32 → Int32)) (a b : Int32) :
    Option (Int32 × List Call) := do
  let (_status, t) ← transact (onTransact platform f) TRANSACTION_add (addData platform a b)
  match _status, sDefaultImpl with
  | false, some impl => return (impl a b, t.calls)
  | _, _ =>
    let _reply ← t.reply.readException
    return (_reply.readInt.1, t.calls)

def basicTypesData (args : BasicTypes) : Parcel :=
  let _data := writeInterfaceToken platform.header Parcel.obtain DESCRIPTOR
  let _data := _data.writeInt args.anInt
  let _data := _data.writeLong args.aLong
  let _data := _data.writeInt (if args.aBoolean then 1 else 0)
  let _data := _data.writeInt args.aFloat
  let _data := _data.writeLong args.aDouble
  _data.writeString args.aString

/-- `ICalculator.Stub.Proxy.basicTypes`; a default implementation is not called through the
binder, so it leaves no trace in the calls. -/
def basicTypes (hasDefaultImpl : Bool) (args : BasicTypes) : Option (List Call) := do
  let (_status, t) ← transact (onTransact platform f) TRANSACTION_basicTypes
    (basicTypesData platform args)
  if !_status && hasDefaultImpl then return t.calls
  let _ ← t.reply.readException
  return t.calls

end Generated

/-! ### What the servers see -/

theorem descriptor_length : DESCRIPTOR.length = 22 := by decide

theorem addData_words (a b : Int32) :
    (addData platform a b).words = tokenWords platform.header DESCRIPTOR ++ [a, b] := by
  simp [addData, writeInterfaceToken, writeInt, Parcel.obtain]

/-- Serving `add` over a parcel that starts with two words: one call, and a reply that the client
reads back. -/
theorem serveAdd_words (x y : Int32) (rest : List Int32) :
    serveAdd f { data := ⟨x :: y :: rest⟩, reply := Parcel.obtain, calls := [] } =
      { data := ⟨rest⟩, reply := ⟨[0, f x y]⟩, calls := [.add x y] } := rfl

/-- The generated client and server agree on `add`, whatever the platform's header words are. -/
theorem generated_add (sDefaultImpl : Option (Int32 → Int32 → Int32)) (a b : Int32) :
    Generated.add platform f sDefaultImpl a b = some (f a b, [.add a b]) := by
  have enforce : enforceInterface platform.header (addData platform a b) DESCRIPTOR =
      some ⟨[a, b]⟩ := by
    have h := enforceInterface_append platform.header DESCRIPTOR
      (by rw [descriptor_length]; decide) [a, b]
    rwa [← addData_words] at h
  have served : transact (Generated.onTransact platform f) Generated.TRANSACTION_add
      (addData platform a b) =
      some (true, { data := ⟨[]⟩, reply := ⟨[0, f a b]⟩, calls := [.add a b] }) := by
    simp only [transact, Generated.onTransact]
    rw [if_neg (by decide), if_neg (by decide), if_pos trivial, enforce]
    rfl
  rw [Generated.add, served]
  rfl

/-- The generated client and server agree on `basicTypes`. -/
theorem generated_basicTypes (hasDefaultImpl : Bool) (args : BasicTypes)
    (short : ∀ s ∈ args.aString, s.length < 2 ^ 31) :
    Generated.basicTypes platform f hasDefaultImpl args = some [.basicTypes args] := by
  set words : List Int32 := args.anInt :: (longWords args.aLong ++
    (if args.aBoolean then 1 else 0) :: args.aFloat :: (longWords args.aDouble ++
      (stringWords args.aString ++ []))) with hwords
  have enforce : enforceInterface platform.header (Generated.basicTypesData platform args)
      DESCRIPTOR = some ⟨words⟩ := by
    have h := enforceInterface_append platform.header DESCRIPTOR
      (by rw [descriptor_length]; decide) words
    rw [← h]
    congr 2
    simp [Generated.basicTypesData, writeInterfaceToken, writeInt, writeLong, writeString,
      Parcel.obtain, hwords]
  have flag : decide (0 ≠ if args.aBoolean then (1 : Int32) else 0) = args.aBoolean := by
    cases args.aBoolean <;> decide
  have served : Generated.serveBasicTypes
      { data := ⟨words⟩, reply := Parcel.obtain, calls := [] } =
      { data := ⟨[]⟩, reply := ⟨[0]⟩, calls := [.basicTypes args] } := by
    simp only [Generated.serveBasicTypes, hwords, readInt_cons, readLong_append,
      readString_append _ short, flag]
    rfl
  simp only [Generated.basicTypes, transact, Generated.onTransact]
  rw [if_neg (by decide), if_pos trivial, enforce]
  simp only [Option.bind_eq_bind, Option.bind_some, served]
  rfl

/-- The token is long enough to supply both arguments of the hand-split server. -/
theorem token_cons : ∃ x y rest, tokenWords platform.header DESCRIPTOR = x :: y :: rest := by
  have length : 2 ≤ (tokenWords platform.header DESCRIPTOR).length := by
    simp only [tokenWords, stringWords, List.length_append, List.length_cons, length_pack,
      descriptor_length]
    omega
  cases token : tokenWords platform.header DESCRIPTOR with
  | nil => simp [token] at length
  | cons x words =>
    cases words with
    | nil => simp [token] at length
    | cons y rest => exact ⟨x, y, rest, rfl⟩

/-- The hand-split server is called once, on the first two words of the token. -/
theorem handSplit_add {x y : Int32} {rest : List Int32}
    (token : tokenWords platform.header DESCRIPTOR = x :: y :: rest) (a b : Int32) :
    HandSplit.add platform f a b = some (f x y, [.add x y]) := by
  have data : addData platform a b = ⟨x :: y :: (rest ++ [a, b])⟩ := by
    have h := addData_words platform a b
    rw [token] at h
    exact congrArg Parcel.mk h
  have served : transact (HandSplit.onTransact platform f) HandSplit.TRANSACTION_add
      (addData platform a b) =
      some (true, { data := ⟨rest ++ [a, b]⟩, reply := ⟨[0, f x y]⟩, calls := [.add x y] }) := by
    simp only [transact, HandSplit.onTransact]
    rw [if_neg (by decide), if_pos trivial, data, serveAdd_words]
  rw [HandSplit.add, served]
  rfl

/-- The hand-split pair computes `f a b` with one call on `(a, b)` exactly when `a` and `b` are the
first two words of the interface token. -/
theorem handSplit_add_eq_iff (a b : Int32) :
    HandSplit.add platform f a b = some (f a b, [.add a b]) ↔
      (tokenWords platform.header DESCRIPTOR)[0]? = some a ∧
        (tokenWords platform.header DESCRIPTOR)[1]? = some b := by
  obtain ⟨x, y, rest, token⟩ := token_cons platform
  rw [handSplit_add platform f token, token]
  simp only [Option.some.injEq, Prod.mk.injEq, List.cons.injEq, and_true, Call.add.injEq,
    List.getElem?_cons_zero, List.getElem?_cons_succ]
  constructor
  · exact fun h => h.2
  · rintro ⟨rfl, rfl⟩
    exact ⟨rfl, rfl, rfl⟩

end Model

/-- `client.add(3, 6)` of `MainActivity`, over a header of a strict-mode policy, a work source and
the vendor word. -/
theorem handSplit_add_ne :
    ¬ ∀ (platform : Platform) (f : Int32 → Int32 → Int32) (a b : Int32),
      HandSplit.add platform f a b = some (f a b, [.add a b]) := by
  intro claim
  have h := claim ⟨[0x42000004, -1, 0x53595354], fun _ _ => none⟩ (fun a b => a + b) 3 6
  exact absurd h (by decide)

end CodeNotes.Binder
