import Mathlib.Data.List.TakeDrop
import YogSothoth.Auth.Shown

namespace YogSothoth.Auth

/-- The ring, and what a reread has read, are the keys of the moments shown. -/
structure Shows (moments : Nat → List ActiveKey) (s : Service) (v : Shown) : Prop where
  ring : s.ring = v.ring.map (fun i => byHash (moments i))
  reading : s.reading.map Except.toOption = v.reading.map (fun read => read.map moments)

namespace Shows

variable {moments : Nat → List ActiveKey} {s : Service} {v : Shown}

theorem lookup_now (hnow : moments v.now = s.db.active) (fault : Option RepositoryError) :
    (lookup s.db fault).toOption =
      (if fault.isNone then some v.now else none).map moments := by
  cases fault with
  | none =>
    rw [lookup, AuthDatabase.activeKeys_eq, ← hnow]
    rfl
  | some e => rfl

theorem reload_shown {shown : Nat} {read : Option Nat}
    {answer : Except RepositoryError (List ActiveKey)}
    (h : answer.toOption = read.map moments) :
    reload (byHash (moments shown)) answer = byHash (moments (read.getD shown)) := by
  cases answer with
  | error e =>
    cases read with
    | none => rfl
    | some j => cases h
  | ok keys =>
    cases read with
    | none => cases h
    | some j =>
      cases h
      rfl

theorem step (h : Shows moments s v) (hnow : moments v.now = s.db.active) (a : Action) :
    Shows moments (s.step a) (v.step a) := by
  have hlookup := lookup_now hnow
  obtain ⟨now, shown, read⟩ := v
  obtain ⟨db, ring, reading⟩ := s
  obtain ⟨hring, hreading⟩ := h
  cases hring
  cases a with
  | createKey client front secret fault => exact ⟨rfl, hreading⟩
  | revokeKey pre fault => exact ⟨rfl, hreading⟩
  | revokeClient name => exact ⟨rfl, hreading⟩
  | stop => exact ⟨rfl, rfl⟩
  | start fault =>
    cases shown with
    | some i => exact ⟨rfl, hreading⟩
    | none =>
      cases fault with
      | some e => exact ⟨rfl, hreading⟩
      | none =>
        unfold Service.step Shown.step
        dsimp only [Option.map_none]
        rw [lookup, AuthDatabase.activeKeys_eq]
        exact ⟨congrArg (fun keys => some (byHash keys)) hnow.symm, hreading⟩
  | read fault =>
    cases shown with
    | none => exact ⟨rfl, hreading⟩
    | some i =>
      cases read with
      | none =>
        cases Option.map_eq_none_iff.mp hreading
        exact ⟨rfl, congrArg some (hlookup fault)⟩
      | some read =>
        obtain ⟨answer, rfl, hanswer⟩ := Option.map_eq_some_iff.mp hreading
        exact ⟨rfl, hreading⟩
  | store =>
    cases shown with
    | none => exact ⟨rfl, hreading⟩
    | some i =>
      cases read with
      | none =>
        cases Option.map_eq_none_iff.mp hreading
        exact ⟨rfl, rfl⟩
      | some read =>
        obtain ⟨answer, rfl, hanswer⟩ := Option.map_eq_some_iff.mp hreading
        exact ⟨congrArg some (reload_shown hanswer), rfl⟩

end Shows

/-- The ring is the keys of the database at the moment shown. -/
theorem run_shows (before after : List Action) :
    Shows (fun i => (dbAt ((before ++ after).take i)).active) (Service.run before)
      (Shown.run before) := by
  induction before using List.reverseRecOn generalizing after with
  | nil => exact ⟨rfl, rfl⟩
  | append_singleton before a ih =>
    rw [Service.run_concat, Shown.run_concat, List.append_assoc]
    refine (ih ([a] ++ after)).step ?_ a
    rw [Shown.run_now, List.take_left]
    rfl

theorem run_ring (actions : List Action) : (Service.run actions).ring =
    (Shown.run actions).ring.map (fun i => byHash (dbAt (actions.take i)).active) := by
  have h := (run_shows actions []).ring
  rwa [List.append_nil] at h

/-- The ring shows a moment of the run since this part of it. -/
def ShownSince (actions later : List Action) : Prop :=
  ∃ i, (Shown.run (actions ++ later)).ring = some i ∧ actions.length ≤ i

/-- What the api opens, whatever its operators, its rereads and its requests do, in any order. -/
structure Guarded (actions : List Action) : Prop where
  moment : ∀ i, (Shown.run actions).ring = some i → i ≤ actions.length
  opens : ∀ header client, (Service.run actions).authenticate header = some (.client client) ↔
    ∃ i key, (Shown.run actions).ring = some i ∧ Presents header key ∧
      (dbAt (actions.take i)).Opens key.hash client
  issued : ∀ hash client, (dbAt actions).Opens hash client → ∃ front secret fault,
    .createKey client.name front secret fault ∈ actions ∧
      (ApiKey.fromRandom front secret).hash = hash
  accepted : ∀ client front secret,
    (createApiKey (dbAt actions) client front secret none).1 = .ok () ↔
      isClientName client = true ∧
        (¬ ∃ c ∈ (dbAt actions).clients, c.name = client ∧ c.revoked = true) ∧
          (ApiKey.fromRandom front secret).pre ∉ (dbAt actions).keys.map KeyRow.pre ∧
            (ApiKey.fromRandom front secret).hash ∉ (dbAt actions).keys.map KeyRow.hash
  created : ∀ client front secret fault,
    (createApiKey (dbAt actions) client front secret fault).1 = .ok () → ∃ id,
      (dbAt (actions ++ [.createKey client front secret fault])).Opens
        (ApiKey.fromRandom front secret).hash ⟨id, client⟩
  revoked : ∀ k ∈ (dbAt actions).keys, ∀ fault,
    (revokeApiKey (dbAt actions) k.pre fault).1 = .ok () →
      (dbAt (actions ++ [.revokeKey k.pre fault])).Shut k.hash
  disowned : ∀ k ∈ (dbAt actions).keys, ∀ c ∈ (dbAt actions).clients, c.id = k.clientId →
    (dbAt (actions ++ [.revokeClient c.name])).Shut k.hash
  shut : ∀ later header key client, (dbAt actions).Shut key.hash → ShownSince actions later →
    Presents header key →
      (Service.run (actions ++ later)).authenticate header ≠ some (.client client)
  kept : ∀ later header key client, (dbAt actions).Opens key.hash client →
    .revokeClient client.name ∉ later →
    (∀ k ∈ (dbAt actions).keys, k.hash = key.hash → ∀ fault, .revokeKey k.pre fault ∉ later) →
    ShownSince actions later → Presents header key →
      (Service.run (actions ++ later)).authenticate header = some (.client client)
  identity : ∀ later hash hash' client client', (dbAt actions).Opens hash client →
    (dbAt (actions ++ later)).Opens hash' client' →
      (client.name = client'.name ↔ client.id = client'.id)
  reread : ∀ quiet, (Service.run actions).ring.isSome = true →
    (Service.run actions).reading.isNone = true → (∀ a ∈ quiet, a ≠ .store ∧ a ≠ .stop) →
      ShownSince actions (.read none :: quiet ++ [.store])
  forward : ∀ later later', ShownSince actions later →
    (Service.run (actions ++ later ++ later')).ring.isSome = true →
      ShownSince actions (later ++ later')
  presented : ∀ front secret, Presents (some (bearerHeader (ApiKey.fromRandom front secret)))
    (ApiKey.fromRandom front secret)
  format : ∀ header key, Presents header key →
    ∃! drawn : Bytes API_KEY_PREFIX_BYTES × Bytes API_KEY_SECRET_BYTES,
      ApiKey.fromRandom drawn.1 drawn.2 = key

theorem authenticate_opens (actions : List Action) (header : Option (List UInt8))
    (client : ApiClient) : (Service.run actions).authenticate header = some (.client client) ↔
      ∃ i key, (Shown.run actions).ring = some i ∧ Presents header key ∧
        (dbAt (actions.take i)).Opens key.hash client := by
  rw [Service.authenticate, run_ring, Option.map_map, Option.map_eq_some_iff]
  constructor
  · intro ⟨i, hi, h⟩
    obtain ⟨key, hkey, hopens⟩ := authenticate_client.mp h
    exact ⟨i, key, hi, hkey, byHash_active.mp hopens⟩
  · intro ⟨i, key, hi, hkey, hopens⟩
    exact ⟨i, hi, authenticate_client.mpr ⟨key, hkey, byHash_active.mpr hopens⟩⟩

/-- What is shown since a part of the run has that part's rows. -/
theorem ShownSince.extends {actions later : List Action} (h : ShownSince actions later) :
    ∃ i since, (Shown.run (actions ++ later)).ring = some i ∧
      (∀ a ∈ since, a ∈ later) ∧
      Extends since (dbAt actions) (dbAt ((actions ++ later).take i)) := by
  obtain ⟨i, hi, hle⟩ := h
  refine ⟨i, later.take (i - actions.length), hi, fun a ha => List.mem_of_mem_take ha, ?_⟩
  rw [List.take_append, List.take_of_length_le hle]
  exact dbAt_extends actions _

theorem created_opens (actions : List Action) {client : List Char}
    {front : Bytes API_KEY_PREFIX_BYTES} {secret : Bytes API_KEY_SECRET_BYTES}
    {fault : Option KeyFault}
    (h : (createApiKey (dbAt actions) client front secret fault).1 = .ok ()) : ∃ id,
      (dbAt (actions ++ [.createKey client front secret fault])).Opens
        (ApiKey.fromRandom front secret).hash ⟨id, client⟩ := by
  rcases createApiKey_spec (dbAt actions) client front secret fault with ⟨hrefused, _⟩ | hadded
  · exact absurd h hrefused
  · rw [dbAt, Service.run_concat]
    exact hadded.opens

theorem revoked_shut (actions : List Action) {k : KeyRow} (hk : k ∈ (dbAt actions).keys)
    {fault : Option KeyFault} (h : (revokeApiKey (dbAt actions) k.pre fault).1 = .ok ()) :
    (dbAt (actions ++ [.revokeKey k.pre fault])).Shut k.hash := by
  rcases revokeApiKey_spec (dbAt actions) k.pre fault with ⟨hrefused, _⟩ | hdb
  · exact absurd h hrefused
  · rw [dbAt, Service.run_concat]
    have hdb' : ((Service.run actions).step (.revokeKey k.pre fault)).db =
        ((dbAt actions).revoke k.pre).2 := hdb
    rw [hdb']
    refine ⟨AuthDatabase.revokeRow k.pre k, List.mem_map_of_mem hk,
      AuthDatabase.revokeRow_hash k.pre k, Or.inl ?_⟩
    rw [AuthDatabase.revokeRow_revoked, decide_eq_true rfl, Bool.or_true]

/-- A client's revocation shuts every key of its own. -/
theorem disowned_shut (actions : List Action) {k : KeyRow} (hk : k ∈ (dbAt actions).keys)
    {c : ClientRow} (hc : c ∈ (dbAt actions).clients) (hid : c.id = k.clientId) :
    (dbAt (actions ++ [.revokeClient c.name])).Shut k.hash := by
  rw [dbAt, Service.run_concat]
  refine ⟨k, hk, rfl, Or.inr ⟨AuthDatabase.revokeClientRow c.name c, List.mem_map_of_mem hc, ?_, ?_⟩⟩
  · rw [AuthDatabase.revokeClientRow_id, hid]
  · rw [AuthDatabase.revokeClientRow_revoked, decide_eq_true rfl, Bool.or_true]

theorem identity_kept {actions later : List Action} {hash hash' : List UInt8}
    {client client' : ApiClient} (h : (dbAt actions).Opens hash client)
    (h' : (dbAt (actions ++ later)).Opens hash' client') :
    client.name = client'.name ↔ client.id = client'.id := by
  obtain ⟨_, _, c, hc, _, _, _, _, rfl⟩ := h
  obtain ⟨_, _, c', hc', _, _, _, _, rfl⟩ := h'
  obtain ⟨d, hd, hid, hname, _⟩ := (dbAt_extends actions later).client c hc
  change c.name = c'.name ↔ c.id = c'.id
  rw [← hid, ← hname]
  exact ⟨fun heq => congrArg ClientRow.id (AuthDatabase.eq_of_name hd hc' heq),
    fun heq => congrArg ClientRow.name (AuthDatabase.eq_of_id hd hc' heq)⟩

theorem shownSince_reread {actions quiet : List Action}
    (hring : (Service.run actions).ring.isSome = true)
    (hreading : (Service.run actions).reading.isNone = true)
    (hquiet : ∀ a ∈ quiet, a ≠ .store ∧ a ≠ .stop) :
    ShownSince actions (.read none :: quiet ++ [.store]) := by
  have hshows := run_shows actions []
  rw [hshows.ring, Option.isSome_map] at hring
  have hnone : (Shown.run actions).reading = none := by
    have h := hshows.reading
    rw [Option.isNone_iff_eq_none.mp hreading] at h
    exact Option.map_eq_none_iff.mp h.symm
  refine ⟨actions.length, ?_, Nat.le_refl _⟩
  rw [← List.append_assoc]
  exact Shown.reread hring hnone hquiet

theorem ShownSince.forward {actions later later' : List Action} (h : ShownSince actions later)
    (hring : (Service.run (actions ++ later ++ later')).ring.isSome = true) :
    ShownSince actions (later ++ later') := by
  obtain ⟨i, hi, hle⟩ := h
  rw [run_ring, Option.isSome_map] at hring
  obtain ⟨j, hj⟩ := Option.isSome_iff_exists.mp hring
  refine ⟨j, ?_, Nat.le_trans hle (Shown.forward hi hj)⟩
  rw [← List.append_assoc]
  exact hj

/-- The api opens to the clients of the keys as one past moment of the database has them, a moment
that only moves forward: a key opens from the reread after its creation to the reread after its
revocation, and no other does. -/
theorem run_guarded (actions : List Action) : Guarded actions where
  moment i hi := (Shown.run_ordered actions).shown i hi |>.trans_eq (Shown.run_now actions)
  opens := authenticate_opens actions
  issued hash client h := by
    obtain ⟨k, hk, c, hc, hhash, _, hid, _, rfl⟩ := h
    obtain ⟨c', hc', hid', front, secret, fault, hmem, _, hkey⟩ := issued actions k hk
    cases AuthDatabase.eq_of_id hc hc' (hid.trans hid'.symm)
    exact ⟨front, secret, fault, hmem, hkey.trans hhash⟩
  accepted client front secret := createApiKey_ok (dbAt actions)
  created client front secret fault := created_opens actions
  revoked k hk fault := revoked_shut actions hk
  disowned k hk c hc := disowned_shut actions hk hc
  shut later header key client hshut hsince hkey hauth := by
    obtain ⟨i, since, hi, _, hextends⟩ := hsince.extends
    obtain ⟨i', key', hi', hkey', hopens⟩ := (authenticate_opens _ header client).mp hauth
    rw [hi] at hi'
    cases hi'
    cases presents_unique hkey hkey'
    exact (hextends.shut hshut).not_opens client hopens
  kept later header key client hopens hclient hrevoke hsince hkey := by
    obtain ⟨i, since, hi, hsub, hextends⟩ := hsince.extends
    refine (authenticate_opens _ header client).mpr ⟨i, key, hi, hkey, ?_⟩
    exact hextends.opens hopens (fun hmem => hclient (hsub _ hmem))
      (fun k hk hhash fault hmem => hrevoke k hk hhash fault (hsub _ hmem))
  identity later hash hash' client client' h h' := identity_kept h h'
  reread quiet := shownSince_reread
  forward later later' := ShownSince.forward
  presented := presents_bearer
  format header key h := by
    obtain ⟨front, secret, rfl⟩ := h.format
    refine ⟨(front, secret), rfl, fun drawn hdrawn => ?_⟩
    obtain ⟨hfront, hsecret⟩ := ApiKey.fromRandom_injective hdrawn
    exact Prod.ext hfront hsecret

end YogSothoth.Auth
