import Mathlib.Data.List.Nodup
import YogSothoth.Auth.ApiKey
import YogSothoth.Core.Types
import YogSothoth.Framework.Fallible

namespace YogSothoth.Auth

/-- A client, by its name. -/
structure ApiClient where
  id : Nat
  name : List Char
  deriving DecidableEq

def isNameByte (b : UInt8) : Bool :=
  ((0x61 ≤ b.toNat && b.toNat ≤ 0x7a) || (0x30 ≤ b.toNat && b.toNat ≤ 0x39)) || b == 0x2d

/-- 1 to 63 of `[a-z0-9-]`, a letter or a digit first. -/
def isClientName (name : List Char) : Bool :=
  let bytes := asBytes name
  (1 ≤ bytes.length && bytes.length ≤ 63) && bytes.head? != some 0x2d && bytes.all isNameByte

def isNameChar (c : Char) : Bool :=
  (0x61 ≤ c.toNat && c.toNat ≤ 0x7a) || (0x30 ≤ c.toNat && c.toNat ≤ 0x39)

/-- The CHECK of `api_clients.name`, `^[a-z0-9][a-z0-9-]{0,62}$`. -/
def nameCheck : List Char → Bool
  | [] => false
  | c :: rest => isNameChar c && (rest.length ≤ 62 && rest.all (fun d => isNameChar d || d == '-'))

/-- The CHECK of `api_keys.prefix`, `^[0-9a-f]{8}$`. -/
def prefixCheck (pre : List Char) : Bool :=
  pre.length == 8 && pre.all (fun c =>
    (0x30 ≤ c.toNat && c.toNat ≤ 0x39) || (0x61 ≤ c.toNat && c.toNat ≤ 0x66))

/-- A row of `api_clients`, less its creation. -/
structure ClientRow where
  id : Nat
  name : List Char
  revoked : Bool

/-- A row of `api_keys`, less its id and its creation. -/
structure KeyRow where
  clientId : Nat
  pre : List Char
  hash : List UInt8
  revoked : Bool

/-- The constraints of the two tables, and that the sequence of the ids is ahead of them. -/
structure Constrained (clients : List ClientRow) (keys : List KeyRow) (nextId : Nat) : Prop where
  named : ∀ c ∈ clients, nameCheck c.name = true
  names : (clients.map ClientRow.name).Nodup
  ids : (clients.map ClientRow.id).Nodup
  ahead : ∀ c ∈ clients, c.id < nextId
  shaped : ∀ k ∈ keys, prefixCheck k.pre = true
  prefixes : (keys.map KeyRow.pre).Nodup
  hashes : (keys.map KeyRow.hash).Nodup
  sizes : ∀ k ∈ keys, k.hash.length = 32
  owned : ∀ k ∈ keys, ∃ c ∈ clients, c.id = k.clientId

structure AuthDatabase where
  clients : List ClientRow
  keys : List KeyRow
  nextId : Nat
  constrained : Constrained clients keys nextId

theorem hash_length (message : List UInt8) : (Sha256.hash message).length = 32 := rfl

theorem nodup_map_concat {A B : Type} {f : A → B} {l : List A} {a : A} (hl : (l.map f).Nodup)
    (ha : f a ∉ l.map f) : ((l ++ [a]).map f).Nodup := by
  rw [List.map_append, List.map_singleton]
  refine List.nodup_append.mpr ⟨hl, List.nodup_singleton _, fun b hb c hc heq => ha ?_⟩
  rw [← List.mem_singleton.mp hc, ← heq]
  exact hb

theorem map_map_field {A B : Type} {f : A → A} {g : A → B} (h : ∀ a, g (f a) = g a) (l : List A) :
    (l.map f).map g = l.map g := by
  rw [List.map_map]
  exact List.map_congr_left (fun a _ => h a)

namespace AuthDatabase

theorem empty_constrained : Constrained [] [] 1 where
  named _ h := by cases h
  names := List.nodup_nil
  ids := List.nodup_nil
  ahead _ h := by cases h
  shaped _ h := by cases h
  prefixes := List.nodup_nil
  hashes := List.nodup_nil
  sizes _ h := by cases h
  owned _ h := by cases h

def empty : AuthDatabase := ⟨[], [], 1, empty_constrained⟩

theorem drawn (db : AuthDatabase) : Constrained db.clients db.keys (db.nextId + 1) :=
  { db.constrained with ahead := fun c hc => Nat.lt_succ_of_lt (db.constrained.ahead c hc) }

/-- A transaction that is rolled back: the id it drew is not given back. -/
def rollback (db : AuthDatabase) : AuthDatabase := ⟨db.clients, db.keys, db.nextId + 1, db.drawn⟩

theorem insertClient_constrained (db : AuthDatabase) {name : List Char}
    (hname : nameCheck name = true) (h : name ∉ db.clients.map ClientRow.name) :
    Constrained (db.clients ++ [⟨db.nextId, name, false⟩]) db.keys (db.nextId + 1) where
  named c hc := by
    rcases List.mem_append.mp hc with hc | hc
    · exact db.constrained.named c hc
    · rw [List.mem_singleton.mp hc]
      exact hname
  names := nodup_map_concat db.constrained.names h
  ids := by
    refine nodup_map_concat db.constrained.ids (fun hid => ?_)
    obtain ⟨c, hc, hid⟩ := List.mem_map.mp hid
    exact absurd hid (Nat.ne_of_lt (db.constrained.ahead c hc))
  ahead c hc := by
    rcases List.mem_append.mp hc with hc | hc
    · exact Nat.lt_succ_of_lt (db.constrained.ahead c hc)
    · rw [List.mem_singleton.mp hc]
      exact Nat.lt_succ_self _
  shaped := db.constrained.shaped
  prefixes := db.constrained.prefixes
  hashes := db.constrained.hashes
  sizes := db.constrained.sizes
  owned k hk := by
    obtain ⟨c, hc, hid⟩ := db.constrained.owned k hk
    exact ⟨c, List.mem_append_left _ hc, hid⟩

theorem mem_of_findName {clients : List ClientRow} {name : List Char}
    (h : clients.find? (fun c => c.name = name) = none) : name ∉ clients.map ClientRow.name := by
  intro hmem
  obtain ⟨c, hc, hname⟩ := List.mem_map.mp hmem
  exact absurd (decide_eq_true hname) (List.find?_eq_none.mp h c hc)

/-- `INSERT INTO api_clients … ON CONFLICT (name) DO UPDATE … RETURNING id, revoked_at`. -/
def upsertClient (db : AuthDatabase) (name : List Char) (hname : nameCheck name = true) :
    {r : AuthDatabase × ClientRow // r.2 ∈ r.1.clients} :=
  match h : db.clients.find? (fun c => c.name = name) with
  | some owner => ⟨(db.rollback, owner), List.mem_of_find?_eq_some h⟩
  | none => ⟨(⟨db.clients ++ [⟨db.nextId, name, false⟩], db.keys, db.nextId + 1,
      db.insertClient_constrained hname (mem_of_findName h)⟩, ⟨db.nextId, name, false⟩),
      List.mem_append_right _ (List.mem_singleton_self _)⟩

theorem insertKey_constrained (db : AuthDatabase) {owner : ClientRow} {key : ApiKey}
    (howner : owner ∈ db.clients) (hcheck : prefixCheck key.pre = true)
    (hpre : key.pre ∉ db.keys.map KeyRow.pre) (hhash : key.hash ∉ db.keys.map KeyRow.hash) :
    Constrained db.clients (db.keys ++ [⟨owner.id, key.pre, key.hash, false⟩]) db.nextId where
  named := db.constrained.named
  names := db.constrained.names
  ids := db.constrained.ids
  ahead := db.constrained.ahead
  shaped k hk := by
    rcases List.mem_append.mp hk with hk | hk
    · exact db.constrained.shaped k hk
    · rw [List.mem_singleton.mp hk]
      exact hcheck
  prefixes := nodup_map_concat db.constrained.prefixes hpre
  hashes := nodup_map_concat db.constrained.hashes hhash
  sizes k hk := by
    rcases List.mem_append.mp hk with hk | hk
    · exact db.constrained.sizes k hk
    · rw [List.mem_singleton.mp hk]
      exact hash_length _
  owned k hk := by
    rcases List.mem_append.mp hk with hk | hk
    · exact db.constrained.owned k hk
    · rw [List.mem_singleton.mp hk]
      exact ⟨owner, howner, rfl⟩

/-- `INSERT INTO api_keys`, under the table's constraints. -/
def insertKey (db : AuthDatabase) (owner : ClientRow) (howner : owner ∈ db.clients)
    (key : ApiKey) : Except RepositoryError AuthDatabase :=
  if hcheck : prefixCheck key.pre = true then
    if hpre : key.pre ∉ db.keys.map KeyRow.pre then
      if hhash : key.hash ∉ db.keys.map KeyRow.hash then
        .ok ⟨db.clients, db.keys ++ [⟨owner.id, key.pre, key.hash, false⟩], db.nextId,
          db.insertKey_constrained howner hcheck hpre hhash⟩
      else .error (.conflict ("error returned from database: duplicate key value violates " ++
        "unique constraint \"api_keys_key_hash_key\""))
    else .error (.conflict ("error returned from database: duplicate key value violates " ++
      "unique constraint \"api_keys_prefix_key\""))
  else .error (.backend ("error returned from database: new row for relation \"api_keys\" " ++
    "violates check constraint \"api_keys_prefix_check\""))

/-- `ApiKeyRepository::create`, one transaction. -/
def create (db : AuthDatabase) (client : List Char) (key : ApiKey) :
    Except RepositoryError Unit × AuthDatabase :=
  if hname : nameCheck client = true then
    let upserted := db.upsertClient client hname
    if upserted.1.2.revoked then
      (.error (.conflict ("client " ++ String.ofList client ++ " is revoked")), db.rollback)
    else
      match upserted.1.1.insertKey upserted.1.2 upserted.2 key with
      | .error e => (.error e, db.rollback)
      | .ok db => (.ok (), db)
  else
    (.error (.backend ("error returned from database: new row for relation \"api_clients\" " ++
      "violates check constraint \"api_clients_name_check\"")), db.rollback)

def revokeRow (pre : List Char) (k : KeyRow) : KeyRow :=
  if k.pre = pre then { k with revoked := true } else k

theorem revokeRow_pre (pre : List Char) (k : KeyRow) : (revokeRow pre k).pre = k.pre := by
  unfold revokeRow
  split_ifs <;> rfl

theorem revokeRow_hash (pre : List Char) (k : KeyRow) : (revokeRow pre k).hash = k.hash := by
  unfold revokeRow
  split_ifs <;> rfl

theorem revokeRow_clientId (pre : List Char) (k : KeyRow) :
    (revokeRow pre k).clientId = k.clientId := by
  unfold revokeRow
  split_ifs <;> rfl

theorem revokeRow_revoked (pre : List Char) (k : KeyRow) :
    (revokeRow pre k).revoked = (k.revoked || decide (k.pre = pre)) := by
  unfold revokeRow
  split_ifs with h
  · rw [decide_eq_true h, Bool.or_true]
  · rw [decide_eq_false h, Bool.or_false]

theorem revoke_constrained (db : AuthDatabase) (pre : List Char) :
    Constrained db.clients (db.keys.map (revokeRow pre)) db.nextId where
  named := db.constrained.named
  names := db.constrained.names
  ids := db.constrained.ids
  ahead := db.constrained.ahead
  shaped k hk := by
    obtain ⟨k', hk', rfl⟩ := List.mem_map.mp hk
    rw [revokeRow_pre]
    exact db.constrained.shaped k' hk'
  prefixes := by
    rw [map_map_field (revokeRow_pre pre)]
    exact db.constrained.prefixes
  hashes := by
    rw [map_map_field (revokeRow_hash pre)]
    exact db.constrained.hashes
  sizes k hk := by
    obtain ⟨k', hk', rfl⟩ := List.mem_map.mp hk
    rw [revokeRow_hash]
    exact db.constrained.sizes k' hk'
  owned k hk := by
    obtain ⟨k', hk', rfl⟩ := List.mem_map.mp hk
    rw [revokeRow_clientId]
    exact db.constrained.owned k' hk'

/-- `UPDATE api_keys SET revoked_at = now() WHERE prefix = $1 AND revoked_at IS NULL`, and whether
one row was. -/
def revoke (db : AuthDatabase) (pre : List Char) : Bool × AuthDatabase :=
  (db.keys.countP (fun k => k.pre = pre ∧ !k.revoked) == 1,
    ⟨db.clients, db.keys.map (revokeRow pre), db.nextId, db.revoke_constrained pre⟩)

def revokeClientRow (name : List Char) (c : ClientRow) : ClientRow :=
  if c.name = name then { c with revoked := true } else c

theorem revokeClientRow_id (name : List Char) (c : ClientRow) :
    (revokeClientRow name c).id = c.id := by
  unfold revokeClientRow
  split_ifs <;> rfl

theorem revokeClientRow_name (name : List Char) (c : ClientRow) :
    (revokeClientRow name c).name = c.name := by
  unfold revokeClientRow
  split_ifs <;> rfl

theorem revokeClientRow_revoked (name : List Char) (c : ClientRow) :
    (revokeClientRow name c).revoked = (c.revoked || decide (c.name = name)) := by
  unfold revokeClientRow
  split_ifs with h
  · rw [decide_eq_true h, Bool.or_true]
  · rw [decide_eq_false h, Bool.or_false]

theorem revokeClient_constrained (db : AuthDatabase) (name : List Char) :
    Constrained (db.clients.map (revokeClientRow name)) db.keys db.nextId where
  named c hc := by
    obtain ⟨c', hc', rfl⟩ := List.mem_map.mp hc
    rw [revokeClientRow_name]
    exact db.constrained.named c' hc'
  names := by
    rw [map_map_field (revokeClientRow_name name)]
    exact db.constrained.names
  ids := by
    rw [map_map_field (revokeClientRow_id name)]
    exact db.constrained.ids
  ahead c hc := by
    obtain ⟨c', hc', rfl⟩ := List.mem_map.mp hc
    rw [revokeClientRow_id]
    exact db.constrained.ahead c' hc'
  shaped := db.constrained.shaped
  prefixes := db.constrained.prefixes
  hashes := db.constrained.hashes
  sizes := db.constrained.sizes
  owned k hk := by
    obtain ⟨c, hc, hid⟩ := db.constrained.owned k hk
    exact ⟨revokeClientRow name c, List.mem_map_of_mem hc, (revokeClientRow_id name c).trans hid⟩

/-- `UPDATE api_clients SET revoked_at = now() WHERE name = …`, which an operator runs by hand. -/
def revokeClient (db : AuthDatabase) (name : List Char) : AuthDatabase :=
  ⟨db.clients.map (revokeClientRow name), db.keys, db.nextId, db.revokeClient_constrained name⟩

end AuthDatabase

/-- A key not revoked, of a client not revoked. -/
structure ActiveKey where
  hash : List UInt8
  client : ApiClient

namespace AuthDatabase

/-- The row `active_keys` selects of a key, if any. -/
def activeRow (db : AuthDatabase) (k : KeyRow) : Option ActiveKey :=
  match db.clients.find? (fun c => c.id = k.clientId) with
  | some c => if !k.revoked && !c.revoked then some ⟨k.hash, ⟨c.id, c.name⟩⟩ else none
  | none => none

/-- `ActiveKey::try_from`: a hash of another size than 32 bytes is an integrity error. -/
def tryFromRow (row : ActiveKey) : Except RepositoryError ActiveKey :=
  if row.hash.length = 32 then .ok row
  else .error (.integrity ("an api key hash of " ++ toString row.hash.length ++ " bytes"))

def activeKeys (db : AuthDatabase) : Except RepositoryError (List ActiveKey) :=
  (db.keys.filterMap db.activeRow).mapM tryFromRow

end AuthDatabase

section Checks

theorem isNameByte_ascii (b : UInt8) (h : isNameByte b = true) : b.toNat < 0x80 := by
  simp only [isNameByte, Bool.or_eq_true, Bool.and_eq_true, decide_eq_true_eq, beq_iff_eq] at h
  rcases h with (h | h) | h
  · omega
  · omega
  · rw [h]
    decide

theorem isNameByte_char {c : Char} (h : c.toNat < 0x80) :
    isNameByte c.val.toUInt8 = (isNameChar c || c == '-') := by
  have hdash : (c.val.toUInt8 == 0x2d) = (c == '-') := by
    rw [Bool.eq_iff_iff, beq_iff_eq, beq_iff_eq, ← UInt8.toNat_inj, toUInt8_toNat h]
    exact Char.toNat_inj (d := '-')
  rw [isNameByte, toUInt8_toNat h, hdash, isNameChar]

theorem isNameChar_or_dash {c : Char} : (isNameChar c || c == '-') = true ↔
    c.toNat < 0x80 ∧ isNameByte c.val.toUInt8 = true := by
  constructor
  · intro h
    have hlow : c.toNat < 0x80 := by
      rw [Bool.or_eq_true, beq_iff_eq] at h
      rcases h with h | h
      · simp only [isNameChar, Bool.or_eq_true, Bool.and_eq_true, decide_eq_true_eq] at h
        omega
      · rw [h]
        decide
    exact ⟨hlow, (isNameByte_char hlow).trans h⟩
  · intro ⟨hlow, h⟩
    exact (isNameByte_char hlow).symm.trans h

theorem isNameChar_iff {c : Char} (h : (isNameChar c || c == '-') = true) :
    isNameChar c = true ↔ c ≠ '-' := by
  rw [Bool.or_eq_true, beq_iff_eq] at h
  constructor
  · intro hchar hdash
    rw [hdash] at hchar
    exact absurd hchar (by decide)
  · intro hdash
    exact h.resolve_right hdash

/-- `is_client_name` and the CHECK of the table say the same. -/
theorem isClientName_eq_nameCheck (name : List Char) : isClientName name = nameCheck name := by
  rw [Bool.eq_iff_iff]
  cases name with
  | nil => decide
  | cons c rest =>
    have hbytes : (asBytes (c :: rest)).all isNameByte = true ↔
        (c :: rest).all (fun d => isNameChar d || d == '-') = true := by
      rw [asBytes_all isNameByte_ascii, List.all_eq_true]
      exact forall_congr' (fun d => imp_congr_right (fun _ => isNameChar_or_dash.symm))
    by_cases hall : (c :: rest).all (fun d => isNameChar d || d == '-') = true
    · have hlow : ∀ d ∈ c :: rest, d.toNat < 0x80 := fun d hd =>
        (isNameChar_or_dash.mp (List.all_eq_true.mp hall d hd)).1
      have hc := List.all_eq_true.mp hall c List.mem_cons_self
      have hrest : rest.all (fun d => isNameChar d || d == '-') = true := by
        rw [List.all_cons, Bool.and_eq_true] at hall
        exact hall.2
      have hhead : (some c.val.toUInt8 != some 0x2d) = true ↔ c ≠ '-' := by
        rw [bne_iff_ne, ne_eq, Option.some_inj, ← UInt8.toNat_inj,
          toUInt8_toNat (hlow c List.mem_cons_self)]
        exact not_congr (Char.toNat_inj (d := '-'))
      have hnamed := hbytes.mpr hall
      rw [asBytes_ascii hlow, List.map_cons] at hnamed
      simp only [isClientName, nameCheck, hnamed, asBytes_ascii hlow, List.map_cons,
        List.head?_cons, List.length_cons, List.length_map, hrest, Bool.and_true,
        Bool.and_eq_true, decide_eq_true_eq, hhead, isNameChar_iff hc]
      constructor
      · intro h
        exact ⟨h.2, by omega⟩
      · intro h
        exact ⟨⟨by omega, by omega⟩, h.1⟩
    · have hrefused : nameCheck (c :: rest) ≠ true := by
        intro h
        simp only [nameCheck, Bool.and_eq_true] at h
        exact hall (by rw [List.all_cons, h.1, h.2.2]; rfl)
      have hleft : isClientName (c :: rest) ≠ true := by
        intro h
        simp only [isClientName, Bool.and_eq_true] at h
        exact hall (hbytes.mp h.2)
      exact iff_of_false hleft hrefused

end Checks

end YogSothoth.Auth
