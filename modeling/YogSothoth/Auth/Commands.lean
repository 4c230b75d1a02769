import Mathlib.Logic.Function.Basic
import YogSothoth.Auth.KeyRing

namespace YogSothoth.Auth

/-- What becomes of a command the database fails: it never came, was rolled back, or was committed
and its answer lost. -/
inductive Fate where
  | unsent
  | rolledBack
  | committed

structure KeyFault where
  error : RepositoryError
  fate : Fate

inductive CommandError where
  | clientName (name : List Char)
  | store (error : RepositoryError)
  | revoke (error : RepositoryError)
  | noActiveKey (pre : List Char)

/-- `yog-migrate create-api-key`, with the bytes it draws. -/
def createApiKey (db : AuthDatabase) (client : List Char) (front : Bytes API_KEY_PREFIX_BYTES)
    (secret : Bytes API_KEY_SECRET_BYTES) (fault : Option KeyFault) :
    Except CommandError Unit × AuthDatabase :=
  if !isClientName client then (.error (.clientName client), db)
  else
    let created := db.create client (ApiKey.fromRandom front secret)
    match fault with
    | none => (created.1.mapError .store, created.2)
    | some ⟨e, .unsent⟩ => (.error (.store e), db)
    | some ⟨e, .rolledBack⟩ => (.error (.store e), db.rollback)
    | some ⟨e, .committed⟩ => (.error (.store e), created.2)

/-- `yog-migrate revoke-api-key`. -/
def revokeApiKey (db : AuthDatabase) (pre : List Char) (fault : Option KeyFault) :
    Except CommandError Unit × AuthDatabase :=
  let revoked := db.revoke pre
  match fault with
  | none => (if revoked.1 then .ok () else .error (.noActiveKey pre), revoked.2)
  | some ⟨e, .unsent⟩ => (.error (.revoke e), db)
  | some ⟨e, .rolledBack⟩ => (.error (.revoke e), db)
  | some ⟨e, .committed⟩ => (.error (.revoke e), revoked.2)

/-- The keys as the api reads them. -/
def lookup (db : AuthDatabase) : Option RepositoryError →
    Except RepositoryError (List ActiveKey)
  | none => db.activeKeys
  | some e => .error e

/-- A key of this hash, not revoked, is held by this client, not revoked. -/
def AuthDatabase.Opens (db : AuthDatabase) (hash : List UInt8) (client : ApiClient) : Prop :=
  ∃ k ∈ db.keys, ∃ c ∈ db.clients, k.hash = hash ∧ k.revoked = false ∧ c.id = k.clientId ∧
    c.revoked = false ∧ client = ⟨c.id, c.name⟩

namespace AuthDatabase

theorem eq_of_id {db : AuthDatabase} {c c' : ClientRow} (hc : c ∈ db.clients)
    (hc' : c' ∈ db.clients) (h : c.id = c'.id) : c = c' :=
  List.inj_on_of_nodup_map db.constrained.ids hc hc' h

theorem eq_of_name {db : AuthDatabase} {c c' : ClientRow} (hc : c ∈ db.clients)
    (hc' : c' ∈ db.clients) (h : c.name = c'.name) : c = c' :=
  List.inj_on_of_nodup_map db.constrained.names hc hc' h

theorem eq_of_hash {db : AuthDatabase} {k k' : KeyRow} (hk : k ∈ db.keys) (hk' : k' ∈ db.keys)
    (h : k.hash = k'.hash) : k = k' :=
  List.inj_on_of_nodup_map db.constrained.hashes hk hk' h

theorem find_id {db : AuthDatabase} {c : ClientRow} (hc : c ∈ db.clients) :
    db.clients.find? (fun d => d.id = c.id) = some c := by
  cases hfind : db.clients.find? (fun d => d.id = c.id) with
  | none => exact absurd (decide_eq_true rfl) (List.find?_eq_none.mp hfind c hc)
  | some d =>
    have hid : d.id = c.id :=
      of_decide_eq_true (List.find?_some (p := fun d : ClientRow => d.id = c.id) hfind)
    rw [eq_of_id (List.mem_of_find?_eq_some hfind) hc hid]

theorem activeRow_eq_some {db : AuthDatabase} {k : KeyRow} {row : ActiveKey} (hk : k ∈ db.keys) :
    db.activeRow k = some row ↔ ∃ c ∈ db.clients, k.revoked = false ∧ c.id = k.clientId ∧
      c.revoked = false ∧ row = ⟨k.hash, ⟨c.id, c.name⟩⟩ := by
  obtain ⟨c, hc, hid⟩ := db.constrained.owned k hk
  have hrow : db.activeRow k =
      if (!k.revoked && !c.revoked) = true then some ⟨k.hash, ⟨c.id, c.name⟩⟩ else none := by
    rw [activeRow, ← hid, find_id hc]
  rw [hrow, Option.ite_none_right_eq_some, Bool.and_eq_true, Bool.not_eq_true', Bool.not_eq_true']
  constructor
  · intro ⟨⟨hkey, hclient⟩, heq⟩
    exact ⟨c, hc, hkey, hid, hclient, (Option.some.inj heq).symm⟩
  · intro ⟨c', hc', hkey, hid', hclient, heq⟩
    cases eq_of_id hc hc' (hid.trans hid'.symm)
    exact ⟨⟨hkey, hclient⟩, congrArg some heq.symm⟩

/-- The keys the api reads, every one of them well formed. -/
def active (db : AuthDatabase) : List ActiveKey := db.keys.filterMap db.activeRow

theorem mem_active {db : AuthDatabase} {row : ActiveKey} :
    row ∈ db.active ↔ db.Opens row.hash row.client := by
  rw [active, List.mem_filterMap]
  constructor
  · intro ⟨k, hk, hrow⟩
    obtain ⟨c, hc, hkey, hid, hclient, rfl⟩ := (activeRow_eq_some hk).mp hrow
    exact ⟨k, hk, c, hc, rfl, hkey, hid, hclient, rfl⟩
  · intro ⟨k, hk, c, hc, hhash, hkey, hid, hclient, heq⟩
    refine ⟨k, hk, (activeRow_eq_some hk).mpr ⟨c, hc, hkey, hid, hclient, ?_⟩⟩
    rw [hhash, ← heq]

theorem activeKeys_eq (db : AuthDatabase) : db.activeKeys = .ok db.active := by
  rw [activeKeys, mapM_ok_of_forall (g := id), List.map_id, active]
  intro row hrow
  obtain ⟨k, hk, _, _, hhash, _⟩ := mem_active.mp hrow
  rw [tryFromRow, if_pos (hhash ▸ db.constrained.sizes k hk)]
  rfl

theorem opens_unique {db : AuthDatabase} {hash : List UInt8} {client client' : ApiClient}
    (h : db.Opens hash client) (h' : db.Opens hash client') : client = client' := by
  obtain ⟨k, hk, c, hc, hhash, _, hid, _, rfl⟩ := h
  obtain ⟨k', hk', c', hc', hhash', _, hid', _, rfl⟩ := h'
  cases eq_of_hash hk hk' (hhash.trans hhash'.symm)
  cases eq_of_id hc hc' (hid.trans hid'.symm)
  rfl

end AuthDatabase

section Ring

theorem byHash_concat (keys : List ActiveKey) (key : ActiveKey) :
    byHash (keys ++ [key]) = Function.update (byHash keys) key.hash (some key.client) := by
  rw [byHash, List.foldl_append]
  rfl

theorem byHash_eq_some {keys : List ActiveKey} {hash : List UInt8} {client : ApiClient}
    (hkeys : ∀ a ∈ keys, ∀ b ∈ keys, a.hash = b.hash → a.client = b.client) :
    byHash keys hash = some client ↔ (⟨hash, client⟩ : ActiveKey) ∈ keys := by
  induction keys using List.reverseRecOn with
  | nil => exact iff_of_false (fun h => by cases h) (fun h => by cases h)
  | append_singleton keys key ih =>
    have hold := ih (fun a ha b hb => hkeys a (List.mem_append_left _ ha) b
      (List.mem_append_left _ hb))
    have hlast : key ∈ keys ++ [key] := List.mem_append_right _ (List.mem_singleton_self key)
    rw [byHash_concat, List.mem_append, List.mem_singleton]
    by_cases hhash : hash = key.hash
    · rw [hhash, Function.update_self, Option.some_inj]
      constructor
      · intro h
        exact Or.inr (by rw [← h])
      · rintro (h | h)
        · exact hkeys key hlast _ (List.mem_append_left _ h) rfl
        · rw [← h]
    · rw [Function.update_of_ne hhash, hold]
      refine ⟨Or.inl, fun h => h.resolve_right (fun heq => hhash ?_)⟩
      rw [← heq]

/-- A ring opens what the database does, of which it was made. -/
theorem byHash_active {db : AuthDatabase} {hash : List UInt8} {client : ApiClient} :
    byHash db.active hash = some client ↔ db.Opens hash client := by
  rw [byHash_eq_some, AuthDatabase.mem_active]
  intro a ha b hb heq
  refine AuthDatabase.opens_unique (AuthDatabase.mem_active.mp ha) ?_
  rw [heq]
  exact AuthDatabase.mem_active.mp hb

end Ring

namespace AuthDatabase

theorem upsertClient_spec (db : AuthDatabase) {name : List Char} (hname : nameCheck name = true) :
    (db.upsertClient name hname).1.2.name = name ∧
      (db.upsertClient name hname).1.1.keys = db.keys ∧
      ((db.upsertClient name hname).1.1.clients = db.clients ∨
        (db.upsertClient name hname).1.1.clients =
          db.clients ++ [(db.upsertClient name hname).1.2]) := by
  unfold upsertClient
  split
  · rename_i owner hfind
    exact ⟨of_decide_eq_true (List.find?_some (p := fun c : ClientRow => c.name = name) hfind),
      rfl, Or.inl rfl⟩
  · exact ⟨rfl, rfl, Or.inr rfl⟩

theorem insertKey_ok {db db' : AuthDatabase} {owner : ClientRow} {howner : owner ∈ db.clients}
    {key : ApiKey} (h : db.insertKey owner howner key = .ok db') :
    db'.clients = db.clients ∧ db'.keys = db.keys ++ [⟨owner.id, key.pre, key.hash, false⟩] := by
  unfold insertKey at h
  split_ifs at h
  cases h
  exact ⟨rfl, rfl⟩

theorem insertKey_isOk {db : AuthDatabase} {owner : ClientRow} (howner : owner ∈ db.clients)
    {key : ApiKey} (hcheck : prefixCheck key.pre = true) :
    (∃ db', db.insertKey owner howner key = .ok db') ↔
      key.pre ∉ db.keys.map KeyRow.pre ∧ key.hash ∉ db.keys.map KeyRow.hash := by
  unfold insertKey
  rw [dif_pos hcheck]
  split_ifs with hpre hhash
  · exact iff_of_false (fun ⟨_, h⟩ => by cases h) (fun h => h.1 hpre)
  · exact iff_of_false (fun ⟨_, h⟩ => by cases h) (fun h => h.2 hhash)
  · exact iff_of_true ⟨_, rfl⟩ ⟨hpre, hhash⟩

/-- The key is the one row more, and its client, not revoked, was there or is the one row more. -/
def Added (db db' : AuthDatabase) (client : List Char) (key : ApiKey) : Prop :=
  ∃ owner ∈ db'.clients, owner.name = client ∧ owner.revoked = false ∧
    db'.keys = db.keys ++ [⟨owner.id, key.pre, key.hash, false⟩] ∧
    (db'.clients = db.clients ∨ db'.clients = db.clients ++ [owner])

theorem Added.opens {db db' : AuthDatabase} {client : List Char} {key : ApiKey}
    (h : Added db db' client key) : ∃ id, db'.Opens key.hash ⟨id, client⟩ := by
  obtain ⟨owner, howner, hname, hactive, hkeys, _⟩ := h
  refine ⟨owner.id, ⟨owner.id, key.pre, key.hash, false⟩, ?_, owner, howner, rfl, rfl, rfl,
    hactive, ?_⟩
  · exact hkeys ▸ List.mem_append_right _ (List.mem_singleton_self _)
  · rw [hname]

/-- A key is created whole, or nothing is. -/
theorem create_spec (db : AuthDatabase) (client : List Char) (key : ApiKey) :
    ((∃ e, (db.create client key).1 = .error e) ∧ (db.create client key).2 = db.rollback) ∨
    ((db.create client key).1 = .ok () ∧ Added db (db.create client key).2 client key) := by
  unfold create
  split_ifs with hname
  · obtain ⟨hclient, hkeys, hclients⟩ := db.upsertClient_spec hname
    dsimp only
    split_ifs with hrevoked
    · exact Or.inl ⟨⟨_, rfl⟩, rfl⟩
    · cases hinsert : (db.upsertClient client hname).1.1.insertKey
          (db.upsertClient client hname).1.2 (db.upsertClient client hname).2 key with
      | error e => exact Or.inl ⟨⟨_, rfl⟩, rfl⟩
      | ok db' =>
        obtain ⟨hclients', hkeys'⟩ := insertKey_ok hinsert
        refine Or.inr ⟨rfl, (db.upsertClient client hname).1.2, ?_, hclient,
          Bool.eq_false_iff.mpr hrevoked, ?_, ?_⟩
        · rw [hclients']
          exact (db.upsertClient client hname).2
        · rw [hkeys', hkeys]
        · rw [hclients']
          exact hclients
  · exact Or.inl ⟨⟨_, rfl⟩, rfl⟩

theorem upsertClient_revoked {db : AuthDatabase} {name : List Char}
    (hname : nameCheck name = true) : (db.upsertClient name hname).1.2.revoked = true ↔
      ∃ c ∈ db.clients, c.name = name ∧ c.revoked = true := by
  unfold upsertClient
  split
  · rename_i owner hfind
    have howner := List.mem_of_find?_eq_some hfind
    have hfound : owner.name = name :=
      of_decide_eq_true (List.find?_some (p := fun c : ClientRow => c.name = name) hfind)
    constructor
    · intro h
      exact ⟨owner, howner, hfound, h⟩
    · intro ⟨c, hc, hcname, h⟩
      cases eq_of_name howner hc (hfound.trans hcname.symm)
      exact h
  · rename_i hfind
    refine iff_of_false Bool.false_ne_true (fun ⟨c, hc, hcname, _⟩ => ?_)
    exact mem_of_findName hfind (List.mem_map.mpr ⟨c, hc, hcname⟩)

/-- A key is created unless its client is revoked, or its prefix or its hash is taken. -/
theorem create_ok {db : AuthDatabase} {client : List Char} {key : ApiKey}
    (hname : nameCheck client = true) (hcheck : prefixCheck key.pre = true) :
    (db.create client key).1 = .ok () ↔
      (¬ ∃ c ∈ db.clients, c.name = client ∧ c.revoked = true) ∧
        key.pre ∉ db.keys.map KeyRow.pre ∧ key.hash ∉ db.keys.map KeyRow.hash := by
  rw [← upsertClient_revoked hname]
  have hinsert := insertKey_isOk (db.upsertClient client hname).2 hcheck
  rw [(db.upsertClient_spec hname).2.1] at hinsert
  rw [← hinsert]
  unfold create
  rw [dif_pos hname]
  dsimp only
  split_ifs with hrevoked
  · exact iff_of_false (fun h => by cases h) (fun h => h.1 hrevoked)
  · cases (db.upsertClient client hname).1.1.insertKey (db.upsertClient client hname).1.2
        (db.upsertClient client hname).2 key with
    | error e => exact iff_of_false (fun h => by cases h) (fun ⟨_, _, h⟩ => by cases h)
    | ok db' => exact iff_of_true rfl ⟨hrevoked, db', rfl⟩

theorem revoke_keys (db : AuthDatabase) (pre : List Char) :
    (db.revoke pre).2.keys = db.keys.map (revokeRow pre) := rfl

end AuthDatabase

section Commands

open AuthDatabase (Added)

variable (db : AuthDatabase)

theorem createApiKey_spec (client : List Char) (front : Bytes API_KEY_PREFIX_BYTES)
    (secret : Bytes API_KEY_SECRET_BYTES) (fault : Option KeyFault) :
    ((createApiKey db client front secret fault).1 ≠ .ok () ∧
      (createApiKey db client front secret fault).2.clients = db.clients ∧
      (createApiKey db client front secret fault).2.keys = db.keys) ∨
    Added db (createApiKey db client front secret fault).2 client
      (ApiKey.fromRandom front secret) := by
  have hcreate := db.create_spec client (ApiKey.fromRandom front secret)
  unfold createApiKey
  split_ifs
  · exact Or.inl ⟨(fun h => by cases h), rfl, rfl⟩
  · dsimp only
    generalize db.create client (ApiKey.fromRandom front secret) = created at hcreate
    obtain ⟨answer, db'⟩ := created
    rcases fault with _ | ⟨e, _ | _ | _⟩
    · rcases hcreate with ⟨⟨e, he⟩, hrows⟩ | ⟨_, hadded⟩
      · cases he
        cases hrows
        exact Or.inl ⟨(fun h => by cases h), rfl, rfl⟩
      · exact Or.inr hadded
    · exact Or.inl ⟨(fun h => by cases h), rfl, rfl⟩
    · exact Or.inl ⟨(fun h => by cases h), rfl, rfl⟩
    · rcases hcreate with ⟨_, hrows⟩ | ⟨_, hadded⟩
      · cases hrows
        exact Or.inl ⟨(fun h => by cases h), rfl, rfl⟩
      · exact Or.inr hadded

/-- No key the command issues is refused for its shape, nor a name it takes by the table. -/
theorem createApiKey_ok {client : List Char} {front : Bytes API_KEY_PREFIX_BYTES}
    {secret : Bytes API_KEY_SECRET_BYTES} :
    (createApiKey db client front secret none).1 = .ok () ↔ isClientName client = true ∧
      (¬ ∃ c ∈ db.clients, c.name = client ∧ c.revoked = true) ∧
        (ApiKey.fromRandom front secret).pre ∉ db.keys.map KeyRow.pre ∧
          (ApiKey.fromRandom front secret).hash ∉ db.keys.map KeyRow.hash := by
  have hcheck : prefixCheck (ApiKey.fromRandom front secret).pre = true := by
    rw [ApiKey.fromRandom_pre, prefixCheck, lowerHex_length, front.2, Bool.and_eq_true,
      List.all_eq_true]
    refine ⟨rfl, fun c hc => ?_⟩
    have hhex := lowerHex_hex front.1 c hc
    rw [Bool.or_eq_true, Bool.and_eq_true, Bool.and_eq_true, decide_eq_true_eq,
      decide_eq_true_eq, decide_eq_true_eq, decide_eq_true_eq]
    exact hhex
  unfold createApiKey
  by_cases hname : isClientName client = true
  · rw [if_neg (by rw [hname]; exact Bool.false_ne_true)]
    rw [isClientName_eq_nameCheck] at hname
    have hcreate := @AuthDatabase.create_ok db client _ hname hcheck
    rw [isClientName_eq_nameCheck, and_iff_right hname, ← hcreate]
    exact mapError_eq_ok
  · rw [if_pos (by rw [Bool.not_eq_true', Bool.eq_false_iff]; exact hname)]
    exact iff_of_false (fun h => by cases h) (fun h => hname h.1)

theorem revokeApiKey_spec (pre : List Char) (fault : Option KeyFault) :
    ((revokeApiKey db pre fault).1 ≠ .ok () ∧ (revokeApiKey db pre fault).2 = db) ∨
      (revokeApiKey db pre fault).2 = (db.revoke pre).2 := by
  rcases fault with _ | ⟨e, _ | _ | _⟩
  · exact Or.inr rfl
  · exact Or.inl ⟨(fun h => by cases h), rfl⟩
  · exact Or.inl ⟨(fun h => by cases h), rfl⟩
  · exact Or.inr rfl

end Commands

end YogSothoth.Auth
