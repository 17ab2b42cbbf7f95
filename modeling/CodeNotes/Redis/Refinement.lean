import CodeNotes.Redis.Backend

/-!
# The backend refines a finite map

What the backend is for is a finite map from strings to strings (`Spec.serve`).  A database that
holds only strings represents such a map; each handler meets the specification of its request and
keeps the representation (`serve_simulates`), so every sequence of requests does
(`backend_refines_map`).
-/

namespace CodeNotes.Redis

open Service

namespace Spec

abbrev Map := Finmap fun _ : Bytes => Bytes

/-- What an answer has to say. -/
inductive Answer where
  | ok
  | found (pairs : Map)
  | refused
  | notFound

/-- The request as an operation on the map. -/
def serve (m : Map) : Request → Answer × Map
  | .getAllKeys => (.found m, m)
  | .getValueByKey key =>
    match m.lookup key with
    | some value => (.found (.singleton key value), m)
    | none => (.notFound, m)
  | .deleteAllKeys => (.ok, ∅)
  | .deleteKeyByKey key => if key ∈ m then (.ok, m.erase key) else (.notFound, m)
  | .setKeyValue (.object (.string key) (.string value)) =>
    if key ≠ [] ∧ value ≠ [] then (.ok, m.insert key value) else (.refused, m)
  | .setKeyValue _ => (.refused, m)

end Spec

def Response.Meets (response : Response) : Spec.Answer → Prop
  | .ok => response.status = 200
  | .found pairs => response.status = 200 ∧ response.body = pairs
  | .refused => response.status = 400
  | .notFound => response.status = 404

/-- The database holds the pairs of the map, as strings, and nothing else. -/
def Represents (db : Db) (m : Spec.Map) : Prop :=
  ∀ key, db.lookup key = (m.lookup key).map .string

namespace Represents

variable {db : Db} {m : Spec.Map}

theorem mem_iff (represents : Represents db m) (key : Bytes) : key ∈ db ↔ key ∈ m := by
  rw [← Finmap.lookup_isSome, ← Finmap.lookup_isSome, represents key, Option.isSome_map]

theorem get (represents : Represents db m) (key : Bytes) :
    db.get key = match m.lookup key with
      | some value => .ok value
      | none => .error .nil := by
  rw [Db.get, represents key]
  cases m.lookup key <;> rfl

theorem insert (represents : Represents db m) (key value : Bytes) :
    Represents (db.insert key (.string value)) (m.insert key value) := by
  intro k
  by_cases hk : k = key
  · subst hk
    simp [Finmap.lookup_insert]
  · rw [Finmap.lookup_insert_of_ne _ hk, Finmap.lookup_insert_of_ne _ hk, represents k]

theorem erase (represents : Represents db m) (key : Bytes) :
    Represents (db.erase key) (m.erase key) := by
  intro k
  by_cases hk : k = key
  · subst hk
    simp [Finmap.lookup_erase]
  · rw [Finmap.lookup_erase_ne hk, Finmap.lookup_erase_ne hk, represents k]

theorem erase_of_notMem (represents : Represents db m) {key : Bytes} (absent : key ∉ m) :
    Represents (db.erase key) m := by
  intro k
  by_cases hk : k = key
  · subst hk
    simp [Finmap.lookup_erase, Finmap.lookup_eq_none.2 absent]
  · rw [Finmap.lookup_erase_ne hk, represents k]

theorem empty : Represents ∅ ∅ := fun _ => rfl

end Represents

/-- A database of strings represents a map. -/
theorem exists_represents {db : Db} (strings : ∀ key ∈ db, db.Holds key) :
    ∃ m, Represents db m := by
  -- Induction on the keys: those listed so far are already in the map.
  have covered : ∀ keys : List Bytes, ∃ m : Spec.Map, ∀ key,
      (m.lookup key).map .string = if key ∈ keys then db.lookup key else none := by
    intro keys
    induction keys with
    | nil => exact ⟨∅, by simp⟩
    | cons k keys ih =>
      obtain ⟨m, hm⟩ := ih
      by_cases hk : k ∈ db
      · obtain ⟨value, found⟩ := strings k hk
        refine ⟨m.insert k value, fun key => ?_⟩
        by_cases hkey : key = k
        · subst hkey
          simp [Finmap.lookup_insert, found]
        · rw [Finmap.lookup_insert_of_ne _ hkey, hm key]
          simp [hkey]
      · refine ⟨m, fun key => ?_⟩
        rw [hm key]
        by_cases hkey : key = k
        · subst hkey
          simp [Finmap.lookup_eq_none.2 hk]
        · simp [hkey]
  obtain ⟨m, hm⟩ := covered db.keys.toList
  refine ⟨m, fun key => ?_⟩
  simp only [hm key, Finset.mem_toList, Finmap.mem_keys]
  split_ifs with hkey
  · rfl
  · exact Finmap.lookup_eq_none.2 hkey

/-! ### The handlers -/

section Handlers

variable {db : Db} {m : Spec.Map} (e : Enumeration)

/-- The loop of `getAllKeys` leaves the database alone and adds the string values of the keys. -/
theorem exec_getAllKeysLoop (represents : Represents db m) (keys : List Bytes) (result : Body) :
    ∃ body : Body, exec e.store (getAllKeysLoop keys result) db = (⟨StatusOK, body⟩, db) ∧
      ∀ key, body.lookup key =
        if key ∈ keys ∧ key ∈ m then m.lookup key else result.lookup key := by
  induction keys generalizing result with
  | nil => exact ⟨result, rfl, by simp⟩
  | cons k keys ih =>
    have replied : e.store (.GET k) db = (db.get k, db) := rfl
    rw [getAllKeysLoop, exec_call, replied]
    dsimp only
    rw [represents.get k]
    cases hk : m.lookup k with
    | none =>
      have absent : k ∉ m := Finmap.lookup_eq_none.1 hk
      obtain ⟨body, ran, spec⟩ := ih result
      refine ⟨body, ran, fun key => ?_⟩
      rw [spec key]
      congr 1
      apply propext
      rw [List.mem_cons]
      constructor
      · exact fun h => ⟨Or.inr h.1, h.2⟩
      · rintro ⟨rfl | listed, mapped⟩
        · exact absurd mapped absent
        · exact ⟨listed, mapped⟩
    | some value =>
      obtain ⟨body, ran, spec⟩ := ih (result.insert k value)
      refine ⟨body, ran, fun key => ?_⟩
      rw [spec key]
      have mapped : k ∈ m := Finmap.mem_of_lookup_eq_some hk
      by_cases hkey : key = k
      · subst hkey
        simp [mapped, hk, Finmap.lookup_insert]
      · rw [Finmap.lookup_insert_of_ne _ hkey]
        simp [hkey]

theorem exec_getAllKeys (represents : Represents db m) :
    exec e.store getAllKeys db = (⟨StatusOK, m⟩, db) := by
  obtain ⟨body, ran, spec⟩ := exec_getAllKeysLoop e represents (e.order db) ∅
  have all : body = m := by
    apply Finmap.ext_lookup
    intro key
    simp only [spec key, (e.enumerates db).mem_iff, represents.mem_iff, and_self]
    split_ifs with mapped
    · rfl
    · rw [Finmap.lookup_empty, Finmap.lookup_eq_none.2 mapped]
  rw [← all]
  exact ran

/-- The binding succeeds exactly on two non-empty strings. -/
theorem shouldBindJSON_cases (body : PostBody) :
    (∃ key value, shouldBindJSON body = .ok (key, value) ∧
      ∀ m, Spec.serve m (.setKeyValue body) = (.ok, m.insert key value)) ∨
    ∃ message, shouldBindJSON body = .error message ∧
      ∀ m, Spec.serve m (.setKeyValue body) = (.refused, m) := by
  cases body with
  | malformed message => exact Or.inr ⟨message, rfl, fun _ => rfl⟩
  | object key value =>
    rcases key with _ | _ | (_ | ⟨a, key⟩) | message <;>
      rcases value with _ | _ | (_ | ⟨b, value⟩) | message' <;>
      first
        | exact Or.inl ⟨_, _, rfl, fun _ => rfl⟩
        | exact Or.inr ⟨_, rfl, fun _ => rfl⟩

/-- Each request meets its specification and keeps the representation. -/
theorem serve_simulates (db : Db) (m : Spec.Map) (request : Enumeration × Request)
    (represents : Represents db m) :
    (serve db request).1.Meets (Spec.serve m request.2).1 ∧
      Represents (serve db request).2 (Spec.serve m request.2).2 := by
  obtain ⟨e, request⟩ := request
  cases request with
  | getAllKeys =>
    rw [serve, Request.handler, exec_getAllKeys e represents]
    exact ⟨⟨rfl, rfl⟩, represents⟩
  | getValueByKey key =>
    have replied : e.store (.GET key) db = (db.get key, db) := rfl
    rw [serve, Request.handler, getValueByKey, exec_call, replied]
    dsimp only
    rw [represents.get key, Spec.serve]
    cases m.lookup key with
    | none => exact ⟨rfl, represents⟩
    | some value => exact ⟨⟨rfl, rfl⟩, represents⟩
  | deleteAllKeys => exact ⟨rfl, Represents.empty⟩
  | deleteKeyByKey key =>
    have replied : e.store (.DEL key) db =
        (.ok (show ℕ from if key ∈ db then 1 else 0), db.erase key) := rfl
    rw [serve, Request.handler, deleteKeyByKey, exec_call, replied]
    simp only [represents.mem_iff key, Spec.serve]
    by_cases mapped : key ∈ m
    · rw [if_pos mapped, if_pos mapped]
      exact ⟨rfl, represents.erase key⟩
    · rw [if_neg mapped, if_neg mapped]
      exact ⟨rfl, represents.erase_of_notMem mapped⟩
  | setKeyValue body =>
    rw [serve, Request.handler, setKeyValue]
    rcases shouldBindJSON_cases body with ⟨key, value, bound, spec⟩ | ⟨message, bound, spec⟩
    · rw [bound, spec]
      exact ⟨rfl, represents.insert key value⟩
    · rw [bound, spec]
      exact ⟨rfl, represents⟩

end Handlers

/-- Starting from a database of strings, the backend answers every sequence of requests as the
finite map does that the database represents. -/
theorem backend_refines_map {db : Db} (strings : ∀ key ∈ db, db.Holds key) :
    ∃ m, Represents db m ∧ ∀ requests : List (Enumeration × Request),
      List.Forall₂ Response.Meets (serveAll serve db requests).1
        (serveAll (fun m request => Spec.serve m request.2) m requests).1 ∧
      Represents (serveAll serve db requests).2
        (serveAll (fun m request => Spec.serve m request.2) m requests).2 := by
  obtain ⟨m, represents⟩ := exists_represents strings
  refine ⟨m, represents, fun requests => ?_⟩
  apply serveAll_simulates _ requests represents
  exact fun db m request related => serve_simulates db m request related

theorem backend_refines_pair :
    ∃ m, m.lookup (literal "k") = some (literal "v") ∧ ∀ requests : List (Enumeration × Request),
      List.Forall₂ Response.Meets (serveAll serve (Db.pair (literal "k") (literal "v")) requests).1
        (serveAll (fun m request => Spec.serve m request.2) m requests).1 := by
  have strings : ∀ key ∈ Db.pair (literal "k") (literal "v"),
      (Db.pair (literal "k") (literal "v")).Holds key := by
    intro key hkey
    rw [(Finmap.mem_singleton _ _ _).1 hkey]
    exact ⟨literal "v", Finmap.lookup_singleton_eq⟩
  obtain ⟨m, represents, refines⟩ := backend_refines_map strings
  refine ⟨m, ?_, fun requests => (refines requests).1⟩
  have found := represents (literal "k")
  rw [Db.pair, Finmap.lookup_singleton_eq] at found
  obtain ⟨value, mapped, same⟩ := Option.map_eq_some_iff.1 found.symm
  rw [mapped, Value.string.inj same]

end CodeNotes.Redis
