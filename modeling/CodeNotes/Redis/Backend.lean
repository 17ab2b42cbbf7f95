import CodeNotes.Redis.Store
import CodeNotes.Lib.Service

/-!
# The backend's handlers

The handlers of `backend/main.go` as programs over the Redis commands: each issues its commands in
the order of the source and answers with a status and the map handed to `c.JSON`.
-/

namespace CodeNotes.Redis

open Service

/-- The JSON object of an answer, a `map[string]string` or a `gin.H` of strings. -/
abbrev Body := Finmap fun _ : Bytes => Bytes

def StatusOK : ℕ := 200
def StatusBadRequest : ℕ := 400
def StatusNotFound : ℕ := 404
def StatusInternalServerError : ℕ := 500

structure Response where
  status : ℕ
  body : Body

abbrev Handler := Prog Command.Reply Response

/-- `c.JSON(status, gin.H{name: text})`, the last step of a handler. -/
def answer (status : ℕ) (name text : Bytes) : Handler := .done ⟨status, .singleton name text⟩

/-- The loop of `getAllKeys` over the keys, with the pairs read so far. -/
def getAllKeysLoop : List Bytes → Body → Handler
  | [], result => .done ⟨StatusOK, result⟩
  | key :: keys, result => .call (.GET key) fun
    | .error _ => getAllKeysLoop keys result
    | .ok val => getAllKeysLoop keys (result.insert key val)

def getAllKeys : Handler := .call .KEYS fun
  | .error err => answer StatusInternalServerError (literal "error") err.text
  | .ok keys => getAllKeysLoop keys ∅

def getValueByKey (key : Bytes) : Handler := .call (.GET key) fun
  | .error _ => answer StatusNotFound (literal "error") (literal "key not found")
  | .ok val => answer StatusOK key val

def deleteAllKeys : Handler := .call .FLUSHDB fun
  | .error err => answer StatusInternalServerError (literal "error") err.text
  | .ok () => answer StatusOK (literal "message") (literal "all keys deleted")

def deleteKeyByKey (key : Bytes) : Handler := .call (.DEL key) fun
  | .error err => answer StatusInternalServerError (literal "error") err.text
  | .ok result =>
    if (show ℕ from result) = 0 then
      answer StatusNotFound (literal "error") (literal "key not found")
    else answer StatusOK (literal "message") (literal "key deleted")

/-! ### The body of a `POST` -/

/-- A member of the JSON object, as `encoding/json` meets it. -/
inductive Field where
  | missing
  /-- `null` leaves the Go field as it is, empty. -/
  | null
  | string (s : Bytes)
  /-- Any other value, with the text of the `UnmarshalTypeError`. -/
  | notString (message : Bytes)
  deriving DecidableEq

inductive PostBody where
  /-- No JSON object, with the text of the error. -/
  | malformed (message : Bytes)
  | object (key value : Field)
  deriving DecidableEq

def Field.decode : Field → Except Bytes Bytes
  | .missing | .null => .ok []
  | .string s => .ok s
  | .notString message => .error message

/-- The text of a failed `binding:"required"`. -/
def requiredText (name : String) : Bytes :=
  literal ("Key: '" ++ name ++ "' Error:Field validation for '" ++ name ++
    "' failed on the 'required' tag")

/-- `c.ShouldBindJSON` on the struct of the two required strings. -/
def shouldBindJSON : PostBody → Except Bytes (Bytes × Bytes)
  | .malformed message => .error message
  | .object key value =>
    match key.decode, value.decode with
    | .error message, _ | .ok _, .error message => .error message
    | .ok [], .ok [] => .error (requiredText "Key" ++ literal "\n" ++ requiredText "Value")
    | .ok [], .ok _ => .error (requiredText "Key")
    | .ok _, .ok [] => .error (requiredText "Value")
    | .ok key, .ok value => .ok (key, value)

def setKeyValue (body : PostBody) : Handler :=
  match shouldBindJSON body with
  | .error err => answer StatusBadRequest (literal "error") err
  | .ok (key, value) => .call (.SET key value) fun
    | .error err => answer StatusInternalServerError (literal "error") err.text
    | .ok () => answer StatusOK (literal "message") (literal "key set successfully")

/-! ### Requests served one after another -/

/-- A request, with the key as gin hands it to the handler. -/
inductive Request where
  | getAllKeys
  | getValueByKey (key : Bytes)
  | deleteAllKeys
  | deleteKeyByKey (key : Bytes)
  | setKeyValue (body : PostBody)

def Request.handler : Request → Handler
  | .getAllKeys => Redis.getAllKeys
  | .getValueByKey key => Redis.getValueByKey key
  | .deleteAllKeys => Redis.deleteAllKeys
  | .deleteKeyByKey key => Redis.deleteKeyByKey key
  | .setKeyValue body => Redis.setKeyValue body

/-- The order in which the server lists its keys. -/
structure Enumeration where
  order : Db → List Bytes
  enumerates : ∀ db : Db, db.Enumerates (order db)

/-- Redis answering a command without a connection error. -/
def Enumeration.store (e : Enumeration) (c : Command) (db : Db) : c.Reply × Db :=
  (db.reply (e.order db) c, db.after c)

/-- One request on a database that nothing else uses meanwhile. -/
def serve (db : Db) (request : Enumeration × Request) : Response × Db :=
  exec request.1.store request.2.handler db

end CodeNotes.Redis
