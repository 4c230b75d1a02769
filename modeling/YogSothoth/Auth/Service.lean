import Mathlib.Data.List.Induction
import YogSothoth.Auth.Commands

namespace YogSothoth.Auth

/-- The database, the ring of the api when it runs, and the answer its reread waits to store. -/
structure Service where
  db : AuthDatabase
  ring : Option Keys
  reading : Option (Except RepositoryError (List ActiveKey))

inductive Action where
  | createKey (client : List Char) (front : Bytes API_KEY_PREFIX_BYTES)
      (secret : Bytes API_KEY_SECRET_BYTES) (fault : Option KeyFault)
  | revokeKey (pre : List Char) (fault : Option KeyFault)
  | revokeClient (name : List Char)
  | start (fault : Option RepositoryError)
  | read (fault : Option RepositoryError)
  | store
  | stop

namespace Service

def initial : Service := ⟨AuthDatabase.empty, none, none⟩

/-- A step of an operator, or of the api and its rereads, one at a time. -/
def step (s : Service) : Action → Service
  | .createKey client front secret fault =>
    { s with db := (createApiKey s.db client front secret fault).2 }
  | .revokeKey pre fault => { s with db := (revokeApiKey s.db pre fault).2 }
  | .revokeClient name => { s with db := s.db.revokeClient name }
  | .start fault =>
    match s.ring, lookup s.db fault with
    | none, .ok keys => { s with ring := some (byHash keys) }
    | _, _ => s
  | .read fault =>
    match s.ring, s.reading with
    | some _, none => { s with reading := some (lookup s.db fault) }
    | _, _ => s
  | .store =>
    match s.ring, s.reading with
    | some ring, some answer => ⟨s.db, some (reload ring answer), none⟩
    | _, _ => s
  | .stop => ⟨s.db, none, none⟩

def run (actions : List Action) : Service := actions.foldl step initial

/-- What the api answers, while it runs. -/
def authenticate (s : Service) (header : Option (List UInt8)) : Option Admission :=
  s.ring.map (fun ring => Auth.authenticate ring header)

end Service

/-- The database after a part of the run. -/
def dbAt (actions : List Action) : AuthDatabase := (Service.run actions).db

/-- Every row is still there later, revoked only if it was or has been since. -/
structure Extends (later : List Action) (db db' : AuthDatabase) : Prop where
  client : ∀ c ∈ db.clients, ∃ c' ∈ db'.clients, c'.id = c.id ∧ c'.name = c.name ∧
    (c.revoked = true → c'.revoked = true) ∧
    (c'.revoked = true → c.revoked = true ∨ .revokeClient c.name ∈ later)
  key : ∀ k ∈ db.keys, ∃ k' ∈ db'.keys, k'.clientId = k.clientId ∧ k'.pre = k.pre ∧
    k'.hash = k.hash ∧ (k.revoked = true → k'.revoked = true) ∧
    (k'.revoked = true → k.revoked = true ∨ ∃ fault, .revokeKey k.pre fault ∈ later)

namespace Extends

theorem of_rows {later : List Action} {db db' : AuthDatabase}
    (hclients : ∀ c ∈ db.clients, c ∈ db'.clients) (hkeys : ∀ k ∈ db.keys, k ∈ db'.keys) :
    Extends later db db' where
  client c hc := ⟨c, hclients c hc, rfl, rfl, id, Or.inl⟩
  key k hk := ⟨k, hkeys k hk, rfl, rfl, rfl, id, Or.inl⟩

theorem trans {later later' : List Action} {db db' db'' : AuthDatabase} (h : Extends later db db')
    (h' : Extends later' db' db'') : Extends (later ++ later') db db'' where
  client c hc := by
    obtain ⟨c', hc', hid, hname, hrevoked, hsince⟩ := h.client c hc
    obtain ⟨c'', hc'', hid', hname', hrevoked', hsince'⟩ := h'.client c' hc'
    refine ⟨c'', hc'', hid'.trans hid, hname'.trans hname, fun hr => hrevoked' (hrevoked hr),
      fun hr => ?_⟩
    rcases hsince' hr with hr | hr
    · rcases hsince hr with hr | hr
      · exact Or.inl hr
      · exact Or.inr (List.mem_append_left _ hr)
    · exact Or.inr (List.mem_append_right _ (hname ▸ hr))
  key k hk := by
    obtain ⟨k', hk', hclient, hpre, hhash, hrevoked, hsince⟩ := h.key k hk
    obtain ⟨k'', hk'', hclient', hpre', hhash', hrevoked', hsince'⟩ := h'.key k' hk'
    refine ⟨k'', hk'', hclient'.trans hclient, hpre'.trans hpre, hhash'.trans hhash,
      fun hr => hrevoked' (hrevoked hr), fun hr => ?_⟩
    rcases hsince' hr with hr | ⟨fault, hr⟩
    · rcases hsince hr with hr | ⟨fault, hr⟩
      · exact Or.inl hr
      · exact Or.inr ⟨fault, List.mem_append_left _ hr⟩
    · exact Or.inr ⟨fault, List.mem_append_right _ (hpre ▸ hr)⟩

theorem of_added {later : List Action} {db db' : AuthDatabase} {client : List Char} {key : ApiKey}
    (h : db.Added db' client key) : Extends later db db' := by
  obtain ⟨owner, _, _, _, hkeys, hclients⟩ := h
  refine of_rows (fun c hc => ?_) (fun k hk => ?_)
  · rcases hclients with heq | heq
    · exact heq ▸ hc
    · exact heq ▸ List.mem_append_left _ hc
  · exact hkeys ▸ List.mem_append_left _ hk

theorem of_revoke {later : List Action} (db : AuthDatabase) {pre : List Char}
    {fault : Option KeyFault} (h : .revokeKey pre fault ∈ later) :
    Extends later db (db.revoke pre).2 where
  client c hc := ⟨c, hc, rfl, rfl, id, Or.inl⟩
  key k hk := by
    refine ⟨AuthDatabase.revokeRow pre k, List.mem_map_of_mem hk,
      AuthDatabase.revokeRow_clientId pre k, AuthDatabase.revokeRow_pre pre k,
      AuthDatabase.revokeRow_hash pre k, ?_, ?_⟩
    · rw [AuthDatabase.revokeRow_revoked, Bool.or_eq_true]
      exact Or.inl
    · rw [AuthDatabase.revokeRow_revoked, Bool.or_eq_true, decide_eq_true_eq]
      exact Or.imp_right (fun hpre => ⟨fault, hpre ▸ h⟩)

theorem of_revokeClient {later : List Action} (db : AuthDatabase) {name : List Char}
    (h : .revokeClient name ∈ later) : Extends later db (db.revokeClient name) where
  client c hc := by
    refine ⟨AuthDatabase.revokeClientRow name c, List.mem_map_of_mem hc,
      AuthDatabase.revokeClientRow_id name c, AuthDatabase.revokeClientRow_name name c, ?_, ?_⟩
    · rw [AuthDatabase.revokeClientRow_revoked, Bool.or_eq_true]
      exact Or.inl
    · rw [AuthDatabase.revokeClientRow_revoked, Bool.or_eq_true, decide_eq_true_eq]
      exact Or.imp_right (fun hname => hname ▸ h)
  key k hk := ⟨k, hk, rfl, rfl, rfl, id, Or.inl⟩

end Extends

namespace Service

theorem start_db (s : Service) (fault : Option RepositoryError) :
    (s.step (.start fault)).db = s.db := by
  unfold step
  dsimp only
  split <;> rfl

theorem read_db (s : Service) (fault : Option RepositoryError) :
    (s.step (.read fault)).db = s.db := by
  unfold step
  dsimp only
  split <;> rfl

theorem store_db (s : Service) : (s.step .store).db = s.db := by
  unfold step
  dsimp only
  split <;> rfl

theorem step_extends (s : Service) (a : Action) : Extends [a] s.db (s.step a).db := by
  have hsame : ∀ s' : Service, s'.db = s.db → Extends [a] s.db s'.db := fun s' h =>
    Extends.of_rows (fun c hc => h ▸ hc) (fun k hk => h ▸ hk)
  cases a with
  | createKey client front secret fault =>
    rcases createApiKey_spec s.db client front secret fault with ⟨_, hclients, hkeys⟩ | hadded
    · exact Extends.of_rows (fun c hc => hclients ▸ hc) (fun k hk => hkeys ▸ hk)
    · exact Extends.of_added hadded
  | revokeKey pre fault =>
    rcases revokeApiKey_spec s.db pre fault with ⟨_, hdb⟩ | hdb
    · exact hsame _ hdb
    · change Extends _ _ (revokeApiKey s.db pre fault).2
      rw [hdb]
      exact Extends.of_revoke s.db (List.mem_singleton_self _)
  | revokeClient name => exact Extends.of_revokeClient s.db (List.mem_singleton_self _)
  | start fault => exact hsame _ (s.start_db fault)
  | read fault => exact hsame _ (s.read_db fault)
  | store => exact hsame _ s.store_db
  | stop => exact hsame _ rfl

theorem run_concat (actions : List Action) (a : Action) :
    run (actions ++ [a]) = (run actions).step a := by
  rw [run, List.foldl_append]
  rfl

end Service

theorem dbAt_extends (actions later : List Action) :
    Extends later (dbAt actions) (dbAt (actions ++ later)) := by
  induction later using List.reverseRecOn with
  | nil =>
    rw [List.append_nil]
    exact Extends.of_rows (fun _ => id) (fun _ => id)
  | append_singleton later a ih =>
    rw [← List.append_assoc, dbAt, dbAt, Service.run_concat]
    exact ih.trans (Service.step_extends _ a)

/-- A key of this hash is there, and it or its client is revoked. -/
def AuthDatabase.Shut (db : AuthDatabase) (hash : List UInt8) : Prop :=
  ∃ k ∈ db.keys, k.hash = hash ∧
    (k.revoked = true ∨ ∃ c ∈ db.clients, c.id = k.clientId ∧ c.revoked = true)

theorem AuthDatabase.Shut.not_opens {db : AuthDatabase} {hash : List UInt8} (h : db.Shut hash)
    (client : ApiClient) : ¬ db.Opens hash client := by
  obtain ⟨k, hk, hhash, hrevoked⟩ := h
  intro ⟨k', hk', c, hc, hhash', hkey, hid, hclient, _⟩
  cases eq_of_hash hk hk' (hhash.trans hhash'.symm)
  rcases hrevoked with hrevoked | ⟨c', hc', hid', hrevoked⟩
  · rw [hkey] at hrevoked
    cases hrevoked
  · cases eq_of_id hc hc' (hid.trans hid'.symm)
    rw [hclient] at hrevoked
    cases hrevoked

namespace Extends

variable {later : List Action} {db db' : AuthDatabase}

/-- What is shut stays shut. -/
theorem shut (h : Extends later db db') {hash : List UInt8} (hshut : db.Shut hash) :
    db'.Shut hash := by
  obtain ⟨k, hk, hhash, hrevoked⟩ := hshut
  obtain ⟨k', hk', hid, _, hhash', hkey, _⟩ := h.key k hk
  refine ⟨k', hk', hhash'.trans hhash, ?_⟩
  rcases hrevoked with hrevoked | ⟨c, hc, hcid, hrevoked⟩
  · exact Or.inl (hkey hrevoked)
  · obtain ⟨c', hc', hcid', _, hclient, _⟩ := h.client c hc
    exact Or.inr ⟨c', hc', hcid'.trans (hcid.trans hid.symm), hclient hrevoked⟩

/-- What opens still does, if neither its key nor its client has been revoked. -/
theorem opens (h : Extends later db db') {hash : List UInt8} {client : ApiClient}
    (hopens : db.Opens hash client) (hclient : .revokeClient client.name ∉ later)
    (hkey : ∀ k ∈ db.keys, k.hash = hash → ∀ fault, .revokeKey k.pre fault ∉ later) :
    db'.Opens hash client := by
  obtain ⟨k, hk, c, hc, hhash, hactive, hid, hcactive, rfl⟩ := hopens
  obtain ⟨k', hk', hid', _, hhash', _, hsince⟩ := h.key k hk
  obtain ⟨c', hc', hcid, hname, _, hcsince⟩ := h.client c hc
  refine ⟨k', hk', c', hc', hhash'.trans hhash, Bool.eq_false_iff.mpr (fun hrevoked => ?_),
    hcid.trans (hid.trans hid'.symm), Bool.eq_false_iff.mpr (fun hrevoked => ?_), ?_⟩
  · rcases hsince hrevoked with hrevoked | ⟨fault, hmem⟩
    · rw [hactive] at hrevoked
      cases hrevoked
    · exact hkey k hk hhash fault hmem
  · rcases hcsince hrevoked with hrevoked | hmem
    · rw [hcactive] at hrevoked
      cases hrevoked
    · exact hclient hmem
  · rw [hcid, hname]

end Extends

/-- Every key that opens was created for its client. -/
theorem issued (actions : List Action) : ∀ k ∈ (dbAt actions).keys,
    ∃ c ∈ (dbAt actions).clients, c.id = k.clientId ∧ ∃ front secret fault,
      .createKey c.name front secret fault ∈ actions ∧
        (ApiKey.fromRandom front secret).pre = k.pre ∧
        (ApiKey.fromRandom front secret).hash = k.hash := by
  induction actions using List.reverseRecOn with
  | nil =>
    intro k hk
    cases hk
  | append_singleton actions a ih =>
    have hextends := dbAt_extends actions [a]
    have hold : ∀ k ∈ (dbAt actions).keys, ∃ c ∈ (dbAt (actions ++ [a])).clients,
        c.id = k.clientId ∧ ∃ front secret fault,
          .createKey c.name front secret fault ∈ actions ++ [a] ∧
            (ApiKey.fromRandom front secret).pre = k.pre ∧
            (ApiKey.fromRandom front secret).hash = k.hash := by
      intro k hk
      obtain ⟨c, hc, hid, front, secret, fault, hmem, hkey⟩ := ih k hk
      obtain ⟨c', hc', hid', hname, _⟩ := hextends.client c hc
      exact ⟨c', hc', hid'.trans hid, front, secret, fault,
        List.mem_append_left _ (hname ▸ hmem), hkey⟩
    have hrow : ∀ k ∈ (dbAt (actions ++ [a])).keys, (∃ k' ∈ (dbAt actions).keys,
        k'.clientId = k.clientId ∧ k'.pre = k.pre ∧ k'.hash = k.hash) ∨
        ∃ c ∈ (dbAt (actions ++ [a])).clients, c.id = k.clientId ∧ ∃ front secret fault,
          a = .createKey c.name front secret fault ∧
            (ApiKey.fromRandom front secret).pre = k.pre ∧
            (ApiKey.fromRandom front secret).hash = k.hash := by
      rw [dbAt, Service.run_concat]
      generalize hs : Service.run actions = s
      have hkeys : (dbAt actions).keys = s.db.keys := by rw [dbAt, hs]
      rw [hkeys]
      intro k hk
      have hsame : (s.step a).db.keys = s.db.keys → (∃ k' ∈ s.db.keys,
          k'.clientId = k.clientId ∧ k'.pre = k.pre ∧ k'.hash = k.hash) := fun h =>
        ⟨k, h ▸ hk, rfl, rfl, rfl⟩
      cases a with
      | createKey client front secret fault =>
        rcases createApiKey_spec s.db client front secret fault with ⟨_, _, h⟩ | hadded
        · exact Or.inl (hsame h)
        · obtain ⟨owner, howner, hname, _, hkeys, _⟩ := hadded
          change k ∈ (createApiKey s.db client front secret fault).2.keys at hk
          rw [hkeys, List.mem_append, List.mem_singleton] at hk
          rcases hk with hk | rfl
          · exact Or.inl ⟨k, hk, rfl, rfl, rfl⟩
          · exact Or.inr ⟨owner, howner, rfl, front, secret, fault, by rw [hname], rfl, rfl⟩
      | revokeKey pre fault =>
        rcases revokeApiKey_spec s.db pre fault with ⟨_, hdb⟩ | hdb
        · exact Or.inl (hsame (congrArg AuthDatabase.keys hdb))
        · change k ∈ (revokeApiKey s.db pre fault).2.keys at hk
          rw [hdb, AuthDatabase.revoke_keys] at hk
          obtain ⟨k', hk', rfl⟩ := List.mem_map.mp hk
          exact Or.inl ⟨k', hk', (AuthDatabase.revokeRow_clientId pre k').symm,
            (AuthDatabase.revokeRow_pre pre k').symm, (AuthDatabase.revokeRow_hash pre k').symm⟩
      | revokeClient name => exact Or.inl (hsame rfl)
      | start fault => exact Or.inl (hsame (congrArg AuthDatabase.keys (s.start_db fault)))
      | read fault => exact Or.inl (hsame (congrArg AuthDatabase.keys (s.read_db fault)))
      | store => exact Or.inl (hsame (congrArg AuthDatabase.keys s.store_db))
      | stop => exact Or.inl (hsame rfl)
    intro k hk
    rcases hrow k hk with ⟨k', hk', hclient, hpre, hhash⟩ | ⟨c, hc, hid, front, secret, fault, ha, hkey⟩
    · obtain ⟨c, hc, hid, front, secret, fault, hmem, hkey⟩ := hold k' hk'
      exact ⟨c, hc, hid.trans hclient, front, secret, fault, hmem, hkey.1.trans hpre,
        hkey.2.trans hhash⟩
    · exact ⟨c, hc, hid, front, secret, fault,
        List.mem_append_right _ (List.mem_singleton.mpr ha.symm), hkey⟩

end YogSothoth.Auth
