import CodeNotes.Redis.Refinement
import CodeNotes.Redis.Routes

/-!
# The key the user typed

The page sends the key of an insertion in a JSON body and splices the key of a query or a deletion
into a URL as it is.  `addressed` is the endpoint such a URL reaches; it is the typed key exactly
for the keys that are `Plain` (`addressed_eq_iff`).  The demo then reads and deletes what it has
inserted; for any other key it does only where the URL happens to mean the whole store and the
store holds nothing else (`addresses_typed_key_iff`).
-/

namespace CodeNotes.Redis

open Service Url Utf8

/-- What a query or a deletion of the typed key is routed to. -/
def addressed (key : Text) : Option Endpoint :=
  (requestPath (text "/api/key/" ++ key)).bind endpoint

/-- The characters with a meaning of their own in the path of a URL. -/
def urlSpecials : List Char := ['/', '\\', '?', '#', '%', '\t', '\n', '\r']

/-- Nothing in the key is special in a URL. -/
def Plain (key : Text) : Prop :=
  (∀ c ∈ key, c ∉ urlSpecials) ∧
    (∀ c ∈ key.getLast?, 0x20 < c.toNat) ∧ key ≠ ['.'] ∧ key ≠ ['.', '.']

instance (key : Text) : Decidable (Plain key) :=
  decidable_of_iff (key.all (fun c => c ∉ urlSpecials) ∧
    key.getLast?.all (fun c => 0x20 < c.toNat) ∧ key ≠ ['.'] ∧ key ≠ ['.', '.'])
    (by simp [Plain, Option.all_eq_true])

/-! ### Which endpoint a key addresses -/

/-- The key itself is addressed if its URL comes through unchanged, in one segment. -/
theorem addressed_eq_keyParam_iff {key : Text} (nonempty : key ≠ []) :
    addressed key = some (.keyParam (utf8 key)) ↔
      requestPath ('/' :: (text "api/key/" ++ key)) =
          some (utf8 ('/' :: (text "api/key/" ++ key))) ∧
        '/' ∉ key := by
  have bytes : utf8 ('/' :: (text "api/key/" ++ key)) = literal "/api/key/" ++ utf8 key := by
    rw [utf8_cons, utf8_append]
    rfl
  have slash : (0x2F : UInt8) ∈ utf8 key ↔ '/' ∈ key := mem_utf8_ascii (d := '/') (by decide)
  have param : utf8 key ≠ [] := fun nil => nonempty (utf8_eq_nil_iff.1 nil)
  rw [bytes, addressed, Option.bind_eq_some_iff]
  simp only [endpoint_eq_keyParam_iff, slash]
  constructor
  · rintro ⟨path, seen, rfl, -, noSlash⟩
    exact ⟨seen, noSlash⟩
  · rintro ⟨seen, noSlash⟩
    exact ⟨_, seen, rfl, param, noSlash⟩

theorem splitOnP_url {key : Text} (noSlash : ∀ c ∈ key, isSlash c = false) :
    (text "api/key/" ++ key).splitOnP isSlash = [text "api", text "key", key] := by
  have url : text "api/key/" ++ key = text "api" ++ '/' :: (text "key" ++ '/' :: key) := rfl
  have api : ∀ c ∈ text "api", isSlash c = false := List.forall_iff_forall_mem.1 (by decide)
  have name : ∀ c ∈ text "key", isSlash c = false := List.forall_iff_forall_mem.1 (by decide)
  rw [url, List.splitOnP_append_cons_of_forall_mem api _ (by decide),
    List.splitOnP_append_cons_of_forall_mem name _ (by decide),
    List.splitOnP_eq_singleton noSlash]

theorem addressed_eq_iff {key : Text} (nonempty : key ≠ []) :
    addressed key = some (.keyParam (utf8 key)) ↔ Plain key := by
  have begins : ∀ c ∈ text "api/key/", 0x20 < c.toNat ∧ c ∉ ['?', '#'] :=
    List.forall_iff_forall_mem.1 (by decide)
  have percent : '%' ∉ text "api/key/" := by decide
  have backslash : '\\' ∉ text "api/key/" := by decide
  rw [addressed_eq_keyParam_iff nonempty, requestPath_eq_iff, parsedText_append _ begins,
    List.append_cancel_left_eq, parsedText_eq_iff]
  simp only [List.mem_append, percent, backslash, false_or]
  constructor
  · rintro ⟨⟨⟨visible, last⟩, noDots, noPercent, noBackslash⟩, noSlash⟩
    have inner : ∀ c ∈ key, isSlash c = false := by
      intro c hc
      simp only [isSlash, Bool.or_eq_false_iff, decide_eq_false_iff_not]
      exact ⟨fun slash => noSlash (slash ▸ hc), fun slash => noBackslash (slash ▸ hc)⟩
    rw [splitOnP_url inner] at noDots
    have dots := (noDot_iff noPercent).1 (noDots key (by simp))
    refine ⟨fun c hc special => ?_, last, dots⟩
    simp only [urlSpecials, List.mem_cons, List.not_mem_nil, or_false] at special
    rcases special with rfl | rfl | rfl | rfl | rfl | rfl | rfl | rfl
    · exact noSlash hc
    · exact noBackslash hc
    · exact (visible _ hc).2 (by decide)
    · exact (visible _ hc).2 (by decide)
    · exact noPercent hc
    all_goals exact (visible _ hc).1 (by decide)
  · rintro ⟨ordinary, last, dots⟩
    have avoids : ∀ d ∈ urlSpecials, d ∉ key := fun d special hd => ordinary d hd special
    have whites : ∀ c ∈ ['\t', '\n', '\r'], c ∈ urlSpecials :=
      List.forall_iff_forall_mem.1 (by decide)
    have cuts : ∀ c ∈ ['?', '#'], c ∈ urlSpecials := List.forall_iff_forall_mem.1 (by decide)
    have inner : ∀ c ∈ key, isSlash c = false := by
      intro c hc
      simp only [isSlash, Bool.or_eq_false_iff, decide_eq_false_iff_not]
      exact ⟨fun slash => avoids _ (by decide) (slash ▸ hc),
        fun slash => avoids _ (by decide) (slash ▸ hc)⟩
    refine ⟨⟨⟨fun c hc => ⟨fun white => ?_, fun cut => ?_⟩, last⟩, ?_, avoids _ (by decide),
      avoids _ (by decide)⟩, avoids _ (by decide)⟩
    · exact ordinary c hc (whites c white)
    · exact ordinary c hc (cuts c cut)
    · rw [splitOnP_url inner]
      simp only [List.forall_mem_cons]
      exact ⟨⟨by decide, by decide⟩, ⟨by decide, by decide⟩,
        (noDot_iff (avoids _ (by decide))).2 dots, by simp⟩

/-! ### What the handlers do -/

section Exchange

variable (e : Enumeration) (db : Db) {key value : Text}

theorem shouldBindJSON_strings {key value : Bytes} (hkey : key ≠ []) (hvalue : value ≠ []) :
    shouldBindJSON (.object (.string key) (.string value)) = .ok (key, value) := by
  cases key with
  | nil => exact absurd rfl hkey
  | cons b key =>
    cases value with
    | nil => exact absurd rfl hvalue
    | cons b' value => rfl

theorem exchange_set (hkey : key ≠ []) (hvalue : value ≠ []) :
    (exchange e db (.handleSetKeyValue key value)).2 =
      db.insert (utf8 key) (.string (utf8 value)) := by
  have path : requestPath (text "/api/key") = some (literal "/api/key") := by decide +kernel
  have matched : endpoint (literal "/api/key") = some .key := by decide
  have bound := shouldBindJSON_strings (mt utf8_eq_nil_iff.1 hkey) (mt utf8_eq_nil_iff.1 hvalue)
  simp only [exchange, Suspended.sent, path, route, matched]
  rw [serve, Request.handler, setKeyValue, bound]
  rfl

theorem serve_delete (param : Bytes) :
    (serve db (e, .deleteKeyByKey param)).2 = db.erase param := by
  have replied : e.store (.DEL param) db =
      (.ok (show ℕ from if param ∈ db then 1 else 0), db.erase param) := rfl
  rw [serve, Request.handler, deleteKeyByKey, exec_call, replied]
  by_cases mapped : param ∈ db <;> simp [mapped, answer]

theorem exchange_delete :
    (exchange e db (.handleDeleteKey key)).2 =
      match addressed key with
      | some .keys => ∅
      | some (.keyParam param) => db.erase param
      | _ => db := by
  unfold exchange addressed
  simp only [Suspended.sent]
  cases requestPath (text "/api/key/" ++ key) with
  | none => rfl
  | some path =>
    simp only [route, Option.bind_some]
    cases endpoint path with
    | none => rfl
    | some here =>
      cases here with
      | keys => rfl
      | key => rfl
      | keyParam param =>
        show (serve db (e, .deleteKeyByKey param)).2 = db.erase param
        exact serve_delete e db param

/-- What the page shows after a query: the data of the answer, or nothing. -/
def Outcome.shown : Outcome → KeyValue
  | .success data => data
  | .failure _ _ => ∅

theorem exchange_get_param {param val : Bytes} (here : addressed key = some (.keyParam param))
    (found : db.lookup param = some (.string val)) :
    (exchange e db (.handleGetValueByKey key)).1 =
      .success (Body.parse (.singleton param val)) := by
  obtain ⟨path, seen, matched⟩ := Option.bind_eq_some_iff.1 here
  have replied : e.store (.GET param) db = (.ok val, db) :=
    congrArg (·, db) (Db.get_eq_ok_iff.2 found)
  simp only [exchange, Suspended.sent, seen, route, matched]
  rw [serve, Request.handler, getValueByKey, exec_call, replied]
  rfl

theorem exchange_get_keys {m : Spec.Map} (here : addressed key = some .keys)
    (represents : Represents db m) :
    (exchange e db (.handleGetValueByKey key)).1 = .success (Body.parse m) := by
  obtain ⟨path, seen, matched⟩ := Option.bind_eq_some_iff.1 here
  simp only [exchange, Suspended.sent, seen, route, matched]
  rw [serve, Request.handler, exec_getAllKeys e represents]
  rfl

theorem parse_singleton (key value : Text) :
    Body.parse (.singleton (utf8 key) (utf8 value)) = .singleton key value := by
  rw [Body.parse, sortKeys, Finmap.keys_singleton, Finset.sort_singleton, List.foldl_cons,
    List.foldl_nil, Finmap.lookup_singleton_eq, Option.getD_some, decodeLossy_utf8,
    decodeLossy_utf8]
  rfl

/-! ### What the user does -/

def inserting (key value : Text) : List Action :=
  [.handleOperationClick .insert, .setKey key, .setValue value, .handleSetKeyValue]

def querying (key : Text) : List Action :=
  [.handleOperationClick .queryByKey, .setKey key, .handleGetValueByKey]

def deleting (key : Text) : List Action :=
  [.handleOperationClick .deleteByKey, .setKey key, .handleDeleteKey]

theorem perform_append (page : App × Db) (actions actions' : List Action) :
    perform e page (actions ++ actions') = perform e (perform e page actions) actions' := by
  induction actions generalizing page with
  | nil => rfl
  | cons a actions ih =>
    obtain ⟨app, db⟩ := page
    rw [List.cons_append, perform, perform]
    cases (app.act a).2 with
    | none => exact ih _
    | some suspended => exact ih _

theorem perform_inserting (page : App × Db) (hkey : key ≠ []) (hvalue : value ≠ []) :
    (perform e page (inserting key value)).2 =
      page.2.insert (utf8 key) (.string (utf8 value)) := by
  rw [← exchange_set e page.2 hkey hvalue]
  simp [inserting, perform, App.act, App.handleOperationClick, App.clearInputs,
    App.handleSetKeyValue, hkey, hvalue]

/-- The click empties the screen, so that after a failed query it is empty. -/
theorem perform_querying (page : App × Db) (hkey : key ≠ []) :
    (perform e page (querying key)).1.result =
      (exchange e page.2 (.handleGetValueByKey key)).1.shown := by
  have shown : ∀ (outcome : Outcome) (app : App), app.result = ∅ →
      ((Suspended.handleGetValueByKey key).resume outcome app).result = outcome.shown := by
    intro outcome app empty
    cases outcome with
    | success data => rfl
    | failure status message =>
      simp only [Suspended.resume]
      split_ifs
      · rfl
      · exact empty
  simp [querying, perform, App.act, App.handleOperationClick, App.clearInputs,
    App.handleGetValueByKey, hkey, shown]

theorem perform_deleting (page : App × Db) (hkey : key ≠ []) :
    (perform e page (deleting key)).2 = (exchange e page.2 (.handleDeleteKey key)).2 := by
  simp [deleting, perform, App.act, App.handleOperationClick, App.clearInputs,
    App.handleDeleteKey, hkey]

theorem shown_after_insertion (page : App × Db) (hkey : key ≠ []) (hvalue : value ≠ [])
    (reads : addressed key = some (.keyParam (utf8 key)) ∨
      addressed key = some .keys ∧ ∀ k ∈ page.2, k = utf8 key) :
    (perform e page (inserting key value ++ querying key)).1.result = .singleton key value := by
  rw [perform_append, perform_querying e _ hkey, perform_inserting e page hkey hvalue]
  rcases reads with itself | ⟨whole, only⟩
  · rw [exchange_get_param e _ itself (Finmap.lookup_insert _)]
    show Body.parse (.singleton (utf8 key) (utf8 value)) = .singleton key value
    exact parse_singleton key value
  · have represents : Represents (page.2.insert (utf8 key) (.string (utf8 value)))
        (.singleton (utf8 key) (utf8 value)) := by
      intro k
      by_cases hk : k = utf8 key
      · rw [hk, Finmap.lookup_insert, Finmap.lookup_singleton_eq]
        rfl
      · rw [Finmap.lookup_insert_of_ne _ hk,
          Finmap.lookup_eq_none.2 fun mapped => hk (only k mapped),
          Finmap.lookup_eq_none.2 fun mapped => hk ((Finmap.mem_singleton _ _ _).1 mapped)]
        rfl
    rw [exchange_get_keys e _ whole represents]
    show Body.parse (.singleton (utf8 key) (utf8 value)) = .singleton key value
    exact parse_singleton key value

/-- A deletion removes the key and nothing else exactly if the URL means the key itself, or the
whole store where that is the only key. -/
theorem deleted_after_insertion_iff (page : App × Db) (hkey : key ≠ []) (hvalue : value ≠ []) :
    (utf8 key ∉ (perform e page (inserting key value ++ deleting key)).2 ∧
      ∀ k, k ≠ utf8 key →
        (perform e page (inserting key value ++ deleting key)).2.lookup k = page.2.lookup k) ↔
    addressed key = some (.keyParam (utf8 key)) ∨
      addressed key = some .keys ∧ ∀ k ∈ page.2, k = utf8 key := by
  rw [perform_append, perform_deleting e _ hkey, exchange_delete,
    perform_inserting e page hkey hvalue]
  have inserted : utf8 key ∈ page.2.insert (utf8 key) (.string (utf8 value)) :=
    Finmap.mem_insert.2 (Or.inl rfl)
  cases addressed key with
  | none => simp [inserted]
  | some here =>
    cases here with
    | key => simp [inserted]
    | keys =>
      constructor
      · rintro ⟨-, others⟩
        refine Or.inr ⟨rfl, fun k mapped => ?_⟩
        by_contra other
        have gone := others k other
        rw [Finmap.lookup_empty] at gone
        exact Finmap.lookup_eq_none.1 gone.symm mapped
      · rintro (itself | ⟨-, only⟩)
        · cases itself
        · refine ⟨Finmap.notMem_empty, fun k other => ?_⟩
          rw [Finmap.lookup_empty, Finmap.lookup_eq_none.2 fun mapped => other (only k mapped)]
    | keyParam param =>
      constructor
      · rintro ⟨removed, -⟩
        left
        by_contra other
        refine removed (Finmap.mem_erase.2 ⟨?_, inserted⟩)
        rintro rfl
        exact other rfl
      · rintro (itself | ⟨whole, -⟩)
        · obtain rfl : param = utf8 key := by simpa using itself
          refine ⟨Finmap.notMem_erase_self, fun k other => ?_⟩
          rw [Finmap.lookup_erase_ne other, Finmap.lookup_insert_of_ne _ other]
        · cases whole

end Exchange

/-- For every store, a key and value that have been inserted are shown by a query of the key, and a
deletion of the key removes it and nothing else, exactly if the key is plain, or its URL means the
whole store and the store holds no other key. -/
theorem addresses_typed_key_iff (e : Enumeration) (page : App × Db) {key value : Text}
    (hkey : key ≠ []) (hvalue : value ≠ []) :
    ((perform e page (inserting key value ++ querying key)).1.result = .singleton key value ∧
      utf8 key ∉ (perform e page (inserting key value ++ deleting key)).2 ∧
      ∀ k, k ≠ utf8 key →
        (perform e page (inserting key value ++ deleting key)).2.lookup k = page.2.lookup k) ↔
    Plain key ∨ addressed key = some .keys ∧ ∀ k ∈ page.2, k = utf8 key := by
  rw [← addressed_eq_iff hkey, deleted_after_insertion_iff e page hkey hvalue]
  constructor
  · exact fun works => works.2
  · exact fun reads => ⟨shown_after_insertion e page hkey hvalue reads, reads⟩

theorem addresses_typed_key_plain :
    (perform .sorted (.init, Db.pair (literal "b") (literal "1"))
      (inserting (text "a") (text "2") ++ querying (text "a"))).1.result =
        .singleton (text "a") (text "2") :=
  ((addresses_typed_key_iff .sorted (.init, Db.pair (literal "b") (literal "1"))
    (by decide) (by decide)).2 (Or.inl (by decide))).1

/-- Deleting the key `a/../b` that has just been inserted deletes the key `b`. -/
theorem not_addresses_typed_key :
    ¬ ∀ (e : Enumeration) (page : App × Db) (key value : Text), key ≠ [] → value ≠ [] →
      (perform e page (inserting key value ++ querying key)).1.result = .singleton key value ∧
      utf8 key ∉ (perform e page (inserting key value ++ deleting key)).2 ∧
      ∀ k, k ≠ utf8 key →
        (perform e page (inserting key value ++ deleting key)).2.lookup k = page.2.lookup k := by
  intro claim
  have hkey : text "a/../b" ≠ [] := by decide
  have hvalue : text "2" ≠ [] := by decide
  obtain ⟨-, -, others⟩ :=
    claim .sorted (.init, Db.pair (literal "b") (literal "1")) _ _ hkey hvalue
  have unchanged := others (literal "b") (by decide)
  have here : addressed (text "a/../b") = some (.keyParam (literal "b")) := by decide +kernel
  rw [perform_append, perform_deleting _ _ hkey, exchange_delete, here] at unchanged
  dsimp only at unchanged
  rw [Finmap.lookup_erase, Db.pair, Finmap.lookup_singleton_eq] at unchanged
  cases unchanged

end CodeNotes.Redis
