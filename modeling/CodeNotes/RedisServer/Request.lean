import CodeNotes.Lib.Run
import CodeNotes.RedisServer.Numbers
import CodeNotes.RedisServer.SplitArgs

/-!
# Requests

The parsers of `networking.c`, which turn the bytes of a connection into commands.  A request is a
multi bulk one, if it begins with `*`, or a line.  The bytes come in pieces, and a parser that has
not got enough of them returns and goes on at the next piece with what it has kept in the client.  A
client whose query buffer has become too long is closed.

A failed assertion is `none`, and so is a loop that runs out of its fuel; `RequestSteps` shows that
neither happens.
-/

namespace CodeNotes.RedisServer

open Redis

def PROTO_INLINE_MAX_SIZE : ℕ := 1024 * 64
def INT_MAX : ℕ := 2 ^ 31 - 1

inductive ReqType where
  | inline
  | multibulk
  deriving DecidableEq

inductive ProtocolError where
  | tooBigMbulkCount
  | invalidMultibulkLength
  | unauthMultibulkLength
  | tooBigBulkCount
  | expectedDollar (got : UInt8)
  | invalidBulkLength
  | unauthBulkLength
  | tooBigInline
  | unbalancedQuotes
  deriving DecidableEq

/-- `sdsmapchars(s, "\r\n", "  ", 2)`. -/
def blankNewline (b : UInt8) : UInt8 := if b = 13 ∨ b = 10 then 32 else b

def ProtocolError.text : ProtocolError → Bytes
  | .tooBigMbulkCount => literal "Protocol error: too big mbulk count string"
  | .invalidMultibulkLength => literal "Protocol error: invalid multibulk length"
  | .unauthMultibulkLength => literal "Protocol error: unauthenticated multibulk length"
  | .tooBigBulkCount => literal "Protocol error: too big bulk count string"
  | .expectedDollar got =>
    literal "Protocol error: expected '$', got '" ++ [blankNewline got, ascii '\'']
  | .invalidBulkLength => literal "Protocol error: invalid bulk length"
  | .unauthBulkLength => literal "Protocol error: unauthenticated bulk length"
  | .tooBigInline => literal "Protocol error: too big inline request"
  | .unbalancedQuotes => literal "Protocol error: unbalanced quotes in request"

/-- `addReplyErrorLength` of a text that does not begin with `-`. -/
def ProtocolError.reply (error : ProtocolError) : Bytes :=
  literal "-ERR " ++ error.text ++ [13, 10]

/-- The error of a line without an end, which another piece might have brought. -/
def ProtocolError.tooBig : ProtocolError → Prop
  | .tooBigMbulkCount | .tooBigBulkCount | .tooBigInline => True
  | _ => False

/-- What is read of the server: `proto-max-bulk-len`, `client-query-buffer-limit`, `argv_len_sums`
of the commands that the client has queued after `MULTI`, whether the client has still to
authenticate, and whether its last command closes the connection. -/
structure Session where
  protoMaxBulkLen : ℕ
  maxQuerybufLen : ℕ
  queued : ℕ
  authRequired : Bool
  closing : Bool

/-- A query buffer of this length is too long. -/
def Session.overflows (session : Session) (qblen : ℕ) : Prop :=
  session.queued + qblen > session.maxQuerybufLen ∨
    session.queued + qblen > 1024 * 1024 ∧ session.authRequired

instance (session : Session) (qblen : ℕ) : Decidable (session.overflows qblen) :=
  inferInstanceAs (Decidable (_ ∨ _))

/-- A client that is not a master.  `querybuf` is the query buffer from `qb_pos` on, `error` stands
for the flags that close the connection after the reply to a protocol error, `freed` for
`CLIENT_CLOSE_ASAP`, `reply` has the replies to errors, and `commands` are those that were
executed. -/
structure Client where
  querybuf : Bytes
  reqtype : Option ReqType
  multibulklen : ℕ
  bulklen : Option ℕ
  argv : List Bytes
  error : Option ProtocolError
  freed : Bool
  reply : Bytes
  commands : List (List Bytes)
  deriving DecidableEq

/-- `strchr`, which ends at a zero. -/
def strchr (c : UInt8) : Bytes → Option ℕ
  | [] => none
  | b :: p => if b = c then some 0 else if b = 0 then none else (strchr c p).map (· + 1)

namespace Client

def start : Client :=
  { querybuf := [], reqtype := none, multibulklen := 0, bulklen := none, argv := [], error := none,
    freed := false, reply := [], commands := [] }

/-- `addReplyError` and `setProtocolError`. -/
def fail (c : Client) (error : ProtocolError) : Client :=
  { c with error := some error, reply := c.reply ++ error.reply }

/-- Why a parser returns before the end of a request. -/
inductive Stop where
  | wait
  | fail (error : ProtocolError)

def stopped (c : Client) : Stop → Client
  | .wait => c
  | .fail error => c.fail error

/-- The end of the line with a length. -/
def newlineAt (tooBig : ProtocolError) (querybuf : Bytes) : Except Stop ℕ :=
  match strchr 13 querybuf with
  | none => if querybuf.length > PROTO_INLINE_MAX_SIZE then .error (.fail tooBig) else .error .wait
  | some newline => if newline + 2 > querybuf.length then .error .wait else .ok newline

-- the session, as the commands before have left it
variable (session : List (List Bytes) → Session)

/-- The number of arguments, from a line that begins with `*`. -/
def readMultibulkLength (newline : ℕ) (c : Client) : Except Stop Client :=
  match string2ll ((c.querybuf.drop 1).take (newline - 1)) with
  | none => .error (.fail .invalidMultibulkLength)
  | some ll =>
    if ll > INT_MAX then .error (.fail .invalidMultibulkLength)
    else if ll > 10 ∧ (session c.commands).authRequired then .error (.fail .unauthMultibulkLength)
    -- the number stays zero, if it is not positive
    else .ok { c with querybuf := c.querybuf.drop (newline + 2), multibulklen := ll.toNat }

/-- The length of the next argument, if it is not known. -/
def readBulkLength (c : Client) : Except Stop Client :=
  match c.bulklen with
  | some _ => .ok c
  | none =>
    match newlineAt .tooBigBulkCount c.querybuf with
    | .error stop => .error stop
    | .ok newline =>
      if c.querybuf.head? ≠ some (ascii '$') then
        .error (.fail (.expectedDollar (c.querybuf.headD 0)))
      else
        match string2ll ((c.querybuf.drop 1).take (newline - 1)) with
        | none => .error (.fail .invalidBulkLength)
        | some ll =>
          if ll < 0 ∨ ll > (session c.commands).protoMaxBulkLen then
            .error (.fail .invalidBulkLength)
          else if ll > 16384 ∧ (session c.commands).authRequired then
            .error (.fail .unauthBulkLength)
          else .ok { c with querybuf := c.querybuf.drop (newline + 2), bulklen := some ll.toNat }

/-- The argument, if all its bytes are there. -/
def readBulk (c : Client) : Except Stop Client :=
  match c.bulklen with
  | none => .error .wait
  | some bulklen =>
    if c.querybuf.length < bulklen + 2 then .error .wait
    else
      .ok { c with
        querybuf := c.querybuf.drop (bulklen + 2)
        argv := c.argv ++ [c.querybuf.take bulklen]
        bulklen := none
        multibulklen := c.multibulklen - 1 }

/-- The loop of `processMultibulkBuffer` over the missing arguments: the client, and whether the
command is complete. -/
def bulkLoop : ℕ → Client → Client × Bool
  | 0, c => (c, true)
  | missing + 1, c =>
    match readBulkLength session c with
    | .error stop => (c.stopped stop, false)
    | .ok c =>
      match readBulk c with
      | .error stop => (c.stopped stop, false)
      | .ok c => bulkLoop missing c

/-- `true` stands for `C_OK`. -/
def processMultibulkBuffer (c : Client) : Option (Client × Bool) :=
  if c.multibulklen = 0 then
    if c.argv ≠ [] then none
    else
      match newlineAt .tooBigMbulkCount c.querybuf with
      | .error stop => some (c.stopped stop, false)
      | .ok newline =>
        if c.querybuf.head? ≠ some (ascii '*') then none
        else
          match readMultibulkLength session newline c with
          | .error stop => some (c.stopped stop, false)
          | .ok c => some (bulkLoop session c.multibulklen c)
  else some (bulkLoop session c.multibulklen c)

/-- A line is split into arguments. -/
def readInline (c : Client) : Except Stop Client :=
  match strchr 10 c.querybuf with
  | none =>
    if c.querybuf.length > PROTO_INLINE_MAX_SIZE then .error (.fail .tooBigInline) else .error .wait
  | some newline =>
    let querylen :=
      if newline ≠ 0 ∧ c.querybuf[newline - 1]? = some 13 then newline - 1 else newline
    match sdssplitargs (c.querybuf.take querylen) with
    | none => .error (.fail .unbalancedQuotes)
    | some argv => .ok { c with querybuf := c.querybuf.drop (newline + 1), argv }

def processInlineBuffer (c : Client) : Client × Bool :=
  match c.readInline with
  | .error stop => (c.stopped stop, false)
  | .ok c => (c, true)

/-- `resetClient`. -/
def reset (c : Client) : Client :=
  { c with reqtype := none, multibulklen := 0, bulklen := none, argv := [] }

/-- A complete request is executed, if it is not empty. -/
def finish (c : Client) : Client :=
  if c.argv = [] then c.reset else { c.reset with commands := c.commands ++ [c.argv] }

/-- The type of the next request, if it is not known. -/
def classify (c : Client) : Client :=
  match c.reqtype with
  | some _ => c
  | none =>
    { c with
      reqtype := if c.querybuf.head? = some (ascii '*') then some .multibulk else some .inline }

def processBuffer (c : Client) : Option (Client × Bool) :=
  match c.reqtype with
  | some .inline => some c.processInlineBuffer
  | some .multibulk => c.processMultibulkBuffer session
  | none => none

/-- No more input is processed. -/
def closing (c : Client) : Prop := c.error ≠ none ∨ c.freed ∨ (session c.commands).closing

instance (c : Client) : Decidable (c.closing session) := inferInstanceAs (Decidable (_ ∨ _))

/-- The loop of `processInputBuffer`.  A command that is executed does not block the client. -/
def processLoop : ℕ → Client → Option Client
  | 0, _ => none
  | fuel + 1, c =>
    if c.querybuf = [] then some c
    else if c.closing session then some c
    else
      (c.classify.processBuffer session).bind fun (c, ok) =>
        if ok then processLoop fuel c.finish else some c

/-- `processInputBuffer`; a request has one byte at least. -/
def processInputBuffer (c : Client) : Option Client :=
  c.processLoop session (c.querybuf.length + 1)

/-- The client with some more bytes in its buffer. -/
def extend (c : Client) (piece : Bytes) : Client := { c with querybuf := c.querybuf ++ piece }

/-- `freeClientAsync`: no more input is processed, and the client is freed later. -/
def free (c : Client) : Client := { c with freed := true }

/-- `readQueryFromClient`, when `read` gives a piece of the input.  Without a byte in it the other
side has closed the connection. -/
def read (c : Client) (piece : Bytes) : Option Client :=
  if piece = [] then some c.free
  else
    let c := c.extend piece
    if (session c.commands).overflows c.querybuf.length then some c.free
    else processInputBuffer session c

end Client

end CodeNotes.RedisServer
