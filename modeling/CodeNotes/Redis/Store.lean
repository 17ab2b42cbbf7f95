import Mathlib.Data.Finmap
import CodeNotes.Lib.Utf8

/-!
# The Redis commands of the demo

The backend of the Redis demo uses five commands of one database.  Keys and string values are byte
strings; a key may also hold a value of another type, on which `GET` fails.  `KEYS *` lists the
keys in an order of the server's choice, so its reply is given the enumeration to return.
-/

namespace CodeNotes.Redis

/-- A Go `string`. -/
abbrev Bytes := List UInt8

/-- The bytes of a string constant of the source. -/
def literal (s : String) : Bytes := Utf8.utf8 s.toList

inductive Value where
  | string (bytes : Bytes)
  /-- A list, a hash, a set, … -/
  | other
  deriving DecidableEq

abbrev Db := Finmap fun _ : Bytes => Value

/-- The errors a command of the Go client returns. -/
inductive RedisError where
  /-- `redis.Nil`: the key does not exist. -/
  | nil
  | wrongType
  /-- The connection failed. -/
  | connection (message : Bytes)
  deriving DecidableEq

/-- `err.Error()`. -/
def RedisError.text : RedisError → Bytes
  | .nil => literal "redis: nil"
  | .wrongType => literal "WRONGTYPE Operation against a key holding the wrong kind of value"
  | .connection message => message

inductive Command where
  | KEYS
  | GET (key : Bytes)
  | DEL (key : Bytes)
  | FLUSHDB
  | SET (key value : Bytes)
  deriving DecidableEq

/-- What the Go client returns for a command that succeeds. -/
def Command.Result : Command → Type
  | .KEYS => List Bytes
  | .GET _ => Bytes
  | .DEL _ => ℕ
  | .FLUSHDB | .SET _ _ => Unit

abbrev Command.Reply (c : Command) := Except RedisError c.Result

namespace Db

/-- `order` lists the keys of the database. -/
def Enumerates (db : Db) (order : List Bytes) : Prop :=
  order.Nodup ∧ order.toFinset = db.keys

instance (db : Db) (order : List Bytes) : Decidable (db.Enumerates order) :=
  inferInstanceAs (Decidable (_ ∧ _))

theorem Enumerates.mem_iff {db : Db} {order : List Bytes} (enumerates : db.Enumerates order)
    (key : Bytes) : key ∈ order ↔ key ∈ db := by
  rw [← List.mem_toFinset, enumerates.2, Finmap.mem_keys]

def get (db : Db) (key : Bytes) : Except RedisError Bytes :=
  match db.lookup key with
  | none => .error .nil
  | some .other => .error .wrongType
  | some (.string value) => .ok value

/-- The reply to a command that reaches the server, where `KEYS *` lists the keys as `order`. -/
def reply (db : Db) (order : List Bytes) : (c : Command) → c.Reply
  | .KEYS => .ok order
  | .GET key => db.get key
  | .DEL key => .ok (show ℕ from if key ∈ db then 1 else 0)
  | .FLUSHDB => .ok ()
  | .SET _ _ => .ok ()

/-- The database after a command. -/
def after (db : Db) : Command → Db
  | .KEYS | .GET _ => db
  | .DEL key => db.erase key
  | .FLUSHDB => ∅
  | .SET key value => db.insert key (.string value)

/-- The key holds a string. -/
def Holds (db : Db) (key : Bytes) : Prop := ∃ value, db.lookup key = some (.string value)

/-- The database with one string. -/
def pair (key value : Bytes) : Db := Finmap.singleton key (.string value)

theorem get_eq_ok_iff {db : Db} {key value : Bytes} :
    db.get key = .ok value ↔ db.lookup key = some (.string value) := by
  unfold get
  split <;> simp_all

theorem Holds.get {db : Db} {key : Bytes} (holds : db.Holds key) :
    ∃ value, db.get key = .ok value := by
  obtain ⟨value, found⟩ := holds
  exact ⟨value, get_eq_ok_iff.2 found⟩

end Db

end CodeNotes.Redis
