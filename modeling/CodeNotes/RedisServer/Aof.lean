import CodeNotes.RedisServer.Request

/-!
# The append only file

`aof.c` writes every command that changes the data to a file, in the multi bulk format, and reads
the file at the next start.  What is written is what `propagatePendingCommands` of `server.c` gets:
the commands of one execution unit, put between `MULTI` and `EXEC` if there are several.

A failed assertion, a failed allocation and an access out of bounds are `none`.  The effect of a
command on the data and the loader of a binary dump at the beginning of the file are parameters.
-/

namespace CodeNotes.RedisServer

open Redis Decimal Run

/-! ### Writing -/

/-- A line with a length, made in the buffer of 32 bytes. -/
def lengthLine (marker : UInt8) (n : ℕ) : Option Bytes :=
  (ll2string (List.replicate 31 0) n).bind fun (len, buf) =>
    if 1 + len + 2 ≤ 32 then some (marker :: buf.take len ++ [13, 10]) else none

/-- The body of the loop of `catAppendOnlyGenericCommand`. -/
def catBulk (dst arg : Bytes) : Option Bytes :=
  (lengthLine (ascii '$') arg.length).map fun line => dst ++ line ++ arg ++ [13, 10]

def catAppendOnlyGenericCommand (dst : Bytes) (argv : List Bytes) : Option Bytes :=
  (lengthLine (ascii '*') argv.length).bind fun line => run catBulk (dst ++ line) argv

/-- The state of the writer.  `none` is the database `-1`. -/
structure AofWriter where
  timestampEnabled : Bool
  curTimestamp : ℤ
  selectedDb : Option ℕ
  buf : Bytes
  deriving DecidableEq

/-- `sdscatfmt(sdsempty(), "#TS:%I\r\n", timestamp)`. -/
def annotationText (timestamp : ℤ) : Bytes := literal "#TS:" ++ integerText timestamp ++ [13, 10]

def genAofTimestampAnnotationIfNeeded (unixtime : ℤ) (aof : AofWriter) : AofWriter × Bytes :=
  if aof.curTimestamp < unixtime then
    ({ aof with curTimestamp := unixtime }, annotationText unixtime)
  else (aof, [])

/-- `"*2\r\n$6\r\nSELECT\r\n$%lu\r\n%s\r\n"` with the number of a database. -/
def selectText (dictid : ℕ) : Bytes :=
  literal "*2\r\n$6\r\nSELECT\r\n$" ++ decimalText (decimalText dictid).length ++ [13, 10] ++
    decimalText dictid ++ [13, 10]

/-- The time in front of a command, if it is wanted. -/
def feedTimestamp (unixtime : ℤ) (aof : AofWriter) : AofWriter × Bytes :=
  if aof.timestampEnabled then genAofTimestampAnnotationIfNeeded unixtime aof else (aof, [])

/-- The `SELECT` in front of a command, if the command before was not for the same database. -/
def feedSelect (dictid : Option ℕ) (aof : AofWriter) : AofWriter × Bytes :=
  match dictid with
  | none => (aof, [])
  | some id =>
    if aof.selectedDb ≠ some id then ({ aof with selectedDb := some id }, selectText id)
    else (aof, [])

def feedAppendOnlyFile (dbnum : ℕ) (unixtime : ℤ) (aof : AofWriter) (dictid : Option ℕ)
    (argv : List Bytes) : Option AofWriter :=
  if ∀ id ∈ dictid, id < dbnum then
    let (aof, timestamp) := feedTimestamp unixtime aof
    let (aof, select) := feedSelect dictid aof
    (catAppendOnlyGenericCommand (timestamp ++ select) argv).map fun buf =>
      { aof with buf := aof.buf ++ buf }
  else none

/-- `redisOp`; of its target only whether the append only file is in it. -/
structure RedisOp where
  dbid : Option ℕ
  argv : List Bytes
  aof : Bool

/-- The commands of an execution unit with the cached time, and whether the command that was run may
modify arbitrary keys. -/
structure Batch where
  unixtime : ℤ
  touchesArbitraryKeys : Bool
  ops : List RedisOp

def propagateNow (dbnum : ℕ) (unixtime : ℤ) (aof : AofWriter) (op : RedisOp) : Option AofWriter :=
  if op.aof then feedAppendOnlyFile dbnum unixtime aof op.dbid op.argv else some aof

def multiOp : RedisOp := { dbid := none, argv := [literal "MULTI"], aof := true }
def execOp : RedisOp := { dbid := none, argv := [literal "EXEC"], aof := true }

def propagatePendingCommands (dbnum : ℕ) (aof : AofWriter) (batch : Batch) : Option AofWriter :=
  let transaction := batch.ops.length > 1 ∧ ¬ batch.touchesArbitraryKeys
  if transaction then
    run (propagateNow dbnum batch.unixtime) aof (multiOp :: batch.ops ++ [execOp])
  else run (propagateNow dbnum batch.unixtime) aof batch.ops

/-! ### The standard library -/

/-- `fgets` into a buffer of some size: the line, the rest of the file, and whether its end was
met. -/
def fgets (size : ℕ) (file : Bytes) : Option (Bytes × Bytes × Bool) :=
  if file = [] then none
  else
    match (file.take (size - 1)).findIdx? (· = 10) with
    | some newline => some (file.take (newline + 1), file.drop (newline + 1), false)
    | none => some (file.take (size - 1), file.drop (size - 1), file.length < size - 1)

/-- `fread` of one item of `len` bytes. -/
def fread (len : ℕ) (file : Bytes) : Option (Bytes × Bytes) :=
  if file.length < len then none else some (file.take len, file.drop len)

/-- `isdigit`. -/
def isDigit (c : UInt8) : Prop := 48 ≤ c ∧ c ≤ 57

instance (c : UInt8) : Decidable (isDigit c) := inferInstanceAs (Decidable (_ ∧ _))

/-- The value of the digits a text begins with. -/
def leadingNumber (p : Bytes) : ℕ := value 0 ((p.takeWhile fun c => isDigit c).map digitOf)

/-- `strtol` with base ten. -/
def strtol (s : Bytes) : ℤ :=
  match s.dropWhile fun c => isSpace c with
  | [] => 0
  | c :: p =>
    if c = ascii '-' then max (-2 ^ 63) (-(leadingNumber p : ℤ))
    else if c = ascii '+' then min (2 ^ 63 - 1) (leadingNumber p : ℤ)
    else min (2 ^ 63 - 1) (leadingNumber (c :: p) : ℤ)

/-- `atoi`, which is `(int) strtol`. -/
def atoi (s : Bytes) : ℤ := (strtol s).bmod (2 ^ 32)

/-! ### Loading -/

inductive CommandKind where
  | multi
  | exec
  | select
  | other
  deriving DecidableEq

/-- What the loader uses of the server.  `memory` is the size of the largest allocation that does
not fail. -/
structure AofServer (σ : Type*) where
  dbnum : ℕ
  memory : ℕ
  loadTruncated : Bool
  lookupCommand : List Bytes → Option CommandKind
  effect : ℕ → List Bytes → σ → σ
  rdbLoad : σ → Bytes → Option (σ × Bytes)

/-- The client the commands are run with, and the data.  `queue` has the commands since `MULTI`. -/
structure AofClient (σ : Type*) where
  data : σ
  db : ℕ
  queue : Option (List (CommandKind × List Bytes))
  deriving DecidableEq

variable {σ : Type*}

/-- `createAOFClient`. -/
def AofClient.start (data : σ) : AofClient σ := { data, db := 0, queue := none }

variable (server : AofServer σ)

def selectCommand (client : AofClient σ) (argv : List Bytes) : Option (AofClient σ) :=
  match argv with
  | _ :: id :: _ =>
    match string2ll id with
    | none => some client
    | some id =>
      if 0 ≤ id ∧ id ≤ INT_MAX ∧ id < server.dbnum then some { client with db := id.toNat }
      else some client
  | _ => none

/-- A queued command is run.  It is not `EXEC`, and `MULTI` is an error there. -/
def callQueued (client : AofClient σ) (command : CommandKind × List Bytes) : Option (AofClient σ) :=
  match command.1 with
  | .multi | .exec => some client
  | .select => selectCommand server client command.2
  | .other => some { client with data := server.effect client.db command.2 client.data }

/-- The call of `cmd->proc`, or the queue. -/
def runCommand (client : AofClient σ) (kind : CommandKind) (argv : List Bytes) :
    Option (AofClient σ) :=
  match client.queue, kind with
  | some queue, .exec =>
    (run (callQueued server) client queue).map fun client => { client with queue := none }
  | some queue, _ => some { client with queue := some (queue ++ [(kind, argv)]) }
  | none, .multi => some { client with queue := some [] }
  | none, .exec => some client
  | none, .select => selectCommand server client argv
  | none, .other => some { client with data := server.effect client.db argv client.data }

def AOF_ANNOTATION_LINE_MAX_LEN : ℕ := 1024

/-- Why the loop is left: the file ends between two commands, it ends too early, its format is wrong
or a command is unknown, or the server does not go on. -/
inductive LoadEnd where
  | eof
  | short
  | failed
  | abort
  deriving DecidableEq

/-- The arguments of a command. -/
def readArgs : ℕ → Bytes → Except LoadEnd (List Bytes × Bytes)
  | 0, file => .ok ([], file)
  | argc + 1, file =>
    match fgets AOF_ANNOTATION_LINE_MAX_LEN file with
    | none => .error .short
    | some (buf, file, _) =>
      if buf.head? ≠ some (ascii '$') then .error .failed
      else
        -- a negative length is a large one
        let len := (strtol (buf.drop 1) % 2 ^ 64).toNat
        if server.memory < len then .error .abort
        else
          match fread len file with
          | none => .error .short
          | some (arg, file) =>
            match fread 2 file with
            | none => .error .short
            | some (_, file) =>
              match readArgs argc file with
              | .error reason => .error reason
              | .ok (args, file) => .ok (arg :: args, file)

/-- The state of the loop; `file` is what has not been read yet. -/
structure AofLoader (σ : Type*) where
  client : AofClient σ
  file : Bytes
  validUpTo : ℕ
  validBeforeMulti : ℕ

/-- The command that has been read is run; `size` is the size of the file. -/
def loadCommand (size : ℕ) (loader : AofLoader σ) (argv : List Bytes) (file : Bytes) :
    Except LoadEnd (AofLoader σ) :=
  match server.lookupCommand argv with
  | none => .error .failed
  | some kind =>
    match runCommand server loader.client kind argv with
    | none => .error .abort
    | some client =>
      .ok {
        client, file
        validUpTo := if server.loadTruncated then size - file.length else loader.validUpTo
        validBeforeMulti := if kind = .multi then loader.validUpTo else loader.validBeforeMulti }

/-- One round of the loop. -/
def loadRound (size : ℕ) (loader : AofLoader σ) : Except LoadEnd (AofLoader σ) :=
  match fgets AOF_ANNOTATION_LINE_MAX_LEN loader.file with
  | none => .error .eof
  | some (buf, file, eof) =>
    if buf.head? = some (ascii '#') then .ok { loader with file }
    else if buf.head? ≠ some (ascii '*') then .error .failed
    else if buf[1]?.getD 0 = 0 then
      -- `readerr` asks for the end of the file
      if eof then .error .short else .error .failed
    else
      let argc := atoi (buf.drop 1)
      if argc < 1 then .error .failed
      else if argc > (2 ^ 64 - 1) / 8 then .error .failed
      else if server.memory < 8 * argc.toNat then .error .abort
      else
        match readArgs server argc.toNat file with
        | .error reason => .error reason
        | .ok (argv, file) => loadCommand server size loader argv file

/-- The loop; a round reads a byte at least. -/
def loadLoop (size : ℕ) : ℕ → AofLoader σ → Option (LoadEnd × AofLoader σ)
  | 0, _ => none
  | fuel + 1, loader =>
    match loadRound server size loader with
    | .error reason => some (reason, loader)
    | .ok loader => loadLoop size fuel loader

inductive AofResult where
  | ok
  | empty
  | truncated (size : ℕ)
  | failed
  deriving DecidableEq

/-- What comes after the loop. -/
def finishLoad (reason : LoadEnd) (loader : AofLoader σ) : Option AofResult :=
  match reason with
  | .eof =>
    match loader.client.queue with
    | none => some .ok
    | some _ => some (if server.loadTruncated then .truncated loader.validBeforeMulti else .failed)
  | .short => some (if server.loadTruncated then .truncated loader.validUpTo else .failed)
  | .failed => some .failed
  | .abort => none

/-- The loop from the beginning of the commands, and its result. -/
def loadCommands (size : ℕ) (data : σ) (file : Bytes) : Option (AofResult × AofClient σ) :=
  (loadLoop server size (file.length + 1) ⟨.start data, file, 0, 0⟩).bind fun (reason, loader) =>
    (finishLoad server reason loader).map fun result => (result, loader.client)

/-- `loadSingleAppendOnlyFile` of a file that can be opened, read and truncated. -/
def loadSingleAppendOnlyFile (data : σ) (file : Bytes) : Option (AofResult × AofClient σ) :=
  if file = [] then some (.empty, .start data)
  else if file.take 5 = literal "REDIS" then
    match server.rdbLoad data file with
    | none => some (.failed, .start data)
    | some (data, rest) => loadCommands server file.length data rest
  else loadCommands server file.length data file

/-- The file that is left: a truncated one loses its end. -/
def AofResult.file (result : AofResult) (file : Bytes) : Bytes :=
  match result with
  | .truncated size => file.take size
  | _ => file

end CodeNotes.RedisServer
