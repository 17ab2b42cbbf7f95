import Mathlib.Data.Finset.Sort
import CodeNotes.Lib.Url
import CodeNotes.Redis.App
import CodeNotes.Redis.Backend

/-!
# From the page to the backend

How a request of the page reaches a handler of the backend: the browser parses the URL the page has
put together and encodes its path, the Go server decodes it, and gin matches the decoded path
against the routes of `main` (`endpoint`, `route`).  The answer comes back as JSON.  `exchange` is
one request with its answer, `perform` a sequence of user actions that each wait for the answer.
-/

namespace CodeNotes.Redis

open Url Utf8

/-! ### The routes -/

inductive Method where
  | GET
  | POST
  | DELETE
  deriving DecidableEq

/-- The patterns of the routes: `/api/keys`, `/api/key` and `/api/key/:key`. -/
inductive Endpoint where
  | keys
  | key
  | keyParam (key : Bytes)
  deriving DecidableEq

/-- The pattern a decoded path matches; `:key` stands for one segment that is not empty. -/
def endpoint (path : Bytes) : Option Endpoint :=
  match path.splitOn 0x2F with
  | [[], api, name] =>
    if api = literal "api" ∧ name = literal "keys" then some .keys
    else if api = literal "api" ∧ name = literal "key" then some .key
    else none
  | [[], api, name, key] =>
    if api = literal "api" ∧ name = literal "key" ∧ key ≠ [] then some (.keyParam key) else none
  | _ => none

theorem intercalate_key (key : Bytes) :
    [0x2F].intercalate [[], literal "api", literal "key", key] = literal "/api/key/" ++ key := by
  have route : literal "/api/key/" =
      [0x2F] ++ literal "api" ++ [0x2F] ++ literal "key" ++ [0x2F] := by decide
  rw [route]
  simp [List.intercalate, List.intersperse]

theorem endpoint_eq_keyParam_iff {path key : Bytes} :
    endpoint path = some (.keyParam key) ↔
      path = literal "/api/key/" ++ key ∧ key ≠ [] ∧ 0x2F ∉ key := by
  have joined : [0x2F].intercalate (path.splitOn 0x2F) = path := List.intercalate_splitOn 0x2F
  constructor
  · intro matched
    unfold endpoint at matched
    split at matched
    next => split_ifs at matched <;> cases matched
    next api name param segments =>
      split_ifs at matched with here
      cases matched
      obtain ⟨rfl, rfl, nonempty⟩ := here
      have last : key ∈ path.splitOn 0x2F := by simp [segments]
      rw [List.splitOn_eq_splitOnP] at last
      refine ⟨?_, nonempty, fun slash => by simpa using not_of_mem_splitOnP last _ slash⟩
      rw [← joined, segments, intercalate_key]
    next => cases matched
  · rintro ⟨rfl, nonempty, noSlash⟩
    have segments : (literal "/api/key/" ++ key).splitOn 0x2F =
        [[], literal "api", literal "key", key] := by
      rw [← intercalate_key]
      apply List.splitOn_intercalate
      · simp only [List.forall_mem_cons]
        exact ⟨by decide, by decide, by decide, noSlash, by simp⟩
      · simp
    simp [endpoint, segments, nonempty]

def route (method : Method) (path : Bytes) (body : PostBody) : Option Request :=
  match method, endpoint path with
  | .GET, some .keys => some .getAllKeys
  | .GET, some (.keyParam key) => some (.getValueByKey key)
  | .DELETE, some .keys => some .deleteAllKeys
  | .DELETE, some (.keyParam key) => some (.deleteKeyByKey key)
  | .POST, some .key => some (.setKeyValue body)
  | _, _ => none

/-! ### Requests of the page -/

/-- The method, the URL after its origin `http://localhost:8080`, and the body. -/
structure Sent where
  method : Method
  url : Text
  body : PostBody

def emptyBody : PostBody := .malformed (literal "EOF")

def Suspended.sent : Suspended → Sent
  | .handleSetKeyValue key value =>
    ⟨.POST, text "/api/key", .object (.string (utf8 key)) (.string (utf8 value))⟩
  | .handleGetAllKeys => ⟨.GET, text "/api/keys", emptyBody⟩
  | .handleGetValueByKey key => ⟨.GET, text "/api/key/" ++ key, emptyBody⟩
  | .handleDeleteAllKeys => ⟨.DELETE, text "/api/keys", emptyBody⟩
  | .handleDeleteKey key => ⟨.DELETE, text "/api/key/" ++ key, emptyBody⟩

/-- Keys in the order of their bytes. -/
def sortKeys (keys : Finset Bytes) : List Bytes := keys.sort (· ≤ ·)

theorem enumerates_sortKeys (db : Db) : db.Enumerates (sortKeys db.keys) :=
  ⟨Finset.sort_nodup _ _, Finset.sort_toFinset _ _⟩

/-- A server that lists its keys in order. -/
def Enumeration.sorted : Enumeration where
  order := fun db => sortKeys db.keys
  enumerates := enumerates_sortKeys

/-- The JSON text of a body, read back: Go writes the keys in order, with what is not UTF-8
replaced, and of equal names the last one counts. -/
def Body.parse (body : Body) : KeyValue :=
  (sortKeys body.keys).foldl
    (fun data key => data.insert (decodeLossy key) (decodeLossy ((body.lookup key).getD []))) ∅

def statusMessage (status : ℕ) : Text :=
  text "Request failed with status code " ++ text (toString status)

/-- How `axios` settles on an answer. -/
def Response.settle (response : Response) : Outcome :=
  if 200 ≤ response.status ∧ response.status < 300 then .success (Body.parse response.body)
  else .failure (some response.status) (statusMessage response.status)

/-- A request and its answer.  Malformed escapes are refused before the CORS middleware runs, so
that the page sees a network error; an unknown path is answered with 404. -/
def exchange (e : Enumeration) (db : Db) (suspended : Suspended) : Outcome × Db :=
  match requestPath suspended.sent.url with
  | none => (.failure none (text "Network Error"), db)
  | some path =>
    match route suspended.sent.method path suspended.sent.body with
    | none => (.failure (some StatusNotFound) (statusMessage StatusNotFound), db)
    | some request => ((serve db (e, request)).1.settle, (serve db (e, request)).2)

/-- User actions, each of which waits for the answer to its request. -/
def perform (e : Enumeration) : App × Db → List Action → App × Db
  | page, [] => page
  | (app, db), a :: actions =>
    match (app.act a).2 with
    | none => perform e ((app.act a).1, db) actions
    | some suspended =>
      let answered := exchange e db suspended
      perform e (suspended.resume answered.1 (app.act a).1, answered.2) actions

end CodeNotes.Redis
