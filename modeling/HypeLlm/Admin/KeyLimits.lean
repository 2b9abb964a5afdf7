import HypeLlm.Admin.KeyCreation
import HypeLlm.Lib.Results

/-!
# What a created key is limited to

* `mint_outcome` — what a creation leaves behind, whichever append fails;
* `permits_networks` — from where a key with listed networks may be used;
* **`creation_keeps_limits`** — what a created key is limited to, when it is limited as it was asked to
  be, and what a refusal leaves behind;
* `networks_dropped` — a key that was to be used from one network and may be used from anywhere.
-/

namespace HypeLlm.Admin.Creation

open HypeLlm.Blocks HypeLlm.Json HypeLlm.Net HypeLlm.Results HypeLlm.Auth.Stored List

variable {F : Type}

/-! ### From where a key may be used -/

theorem highMask_eq {width bits : ℕ} (h : bits ≤ width) :
    highMask width bits = (2 ^ bits - 1) * 2 ^ (width - bits) := by
  obtain ⟨k, rfl⟩ : ∃ k, width = bits + k := Nat.exists_eq_add_of_le h
  rw [highMask, Nat.add_sub_cancel_left]
  split
  · rename_i hzero
    rw [hzero, pow_zero, Nat.sub_self, Nat.zero_mul]
  · rename_i hbits
    have hbig : 1 ≤ 2 ^ k := Nat.one_le_two_pow
    have hgrow : 2 ^ k < 2 ^ (bits + k) := Nat.pow_lt_pow_right (by decide) (by omega)
    have hsplit : (2 ^ (bits + k) - 1) * 2 ^ k =
        2 ^ (bits + k) - 2 ^ k + 2 ^ (bits + k) * (2 ^ k - 1) := by
      rw [Nat.sub_mul, Nat.one_mul, Nat.mul_sub, Nat.mul_one]
      have hle : 2 ^ (bits + k) ≤ 2 ^ (bits + k) * 2 ^ k := Nat.le_mul_of_pos_right _ hbig
      omega
    rw [hsplit, Nat.add_mul_mod_self_left, Nat.mod_eq_of_lt (Nat.sub_lt (by omega) hbig),
      Nat.sub_mul, Nat.one_mul, ← pow_add]

/-- Two numbers agree under the mask when they share the first bits. -/
theorem and_highMask_eq_iff {width bits a n : ℕ} (h : bits ≤ width) (ha : a < 2 ^ width)
    (hn : n < 2 ^ width) :
    a &&& highMask width bits = n &&& highMask width bits ↔ (Block.mk width n bits).Contains a := by
  have hwidth : width - bits + bits = width := Nat.sub_add_cancel h
  rw [highMask_eq h, and_highBits (by rwa [hwidth]), and_highBits (by rwa [hwidth]), Block.Contains,
    Nat.mul_left_inj (Nat.two_pow_pos _).ne']

/-- The network holds the address: they are of one family and share the first bits. -/
def NetworkContains : IpAddr × UInt8 → IpAddr → Prop
  | (.v4 n, bits), .v4 a => bits.toNat ≤ 32 ∧ (Block.mk 32 n.toNat bits.toNat).Contains a.toNat
  | (.v6 n, bits), .v6 a => bits.toNat ≤ 128 ∧ (Block.mk 128 n.toNat bits.toNat).Contains a.toNat
  | _, _ => False

theorem inNetwork_iff {a n : IpAddr} {bits : UInt8} :
    inNetwork a n bits = true ↔ NetworkContains (n, bits) a := by
  cases a with
  | v4 a =>
    cases n with
    | v4 n =>
      rw [inNetwork, decide_eq_true_iff]
      exact and_congr_right fun h => and_highMask_eq_iff h a.toNat_lt n.toNat_lt
    | v6 n => exact iff_of_false Bool.noConfusion id
  | v6 a =>
    cases n with
    | v4 n => exact iff_of_false Bool.noConfusion id
    | v6 n =>
      rw [inNetwork, decide_eq_true_iff]
      exact and_congr_right fun h => and_highMask_eq_iff h a.toNat_lt n.toNat_lt

/-- **A key with listed networks may be used from exactly the addresses in them.** -/
theorem permits_networks {nets : List (IpAddr × UInt8)} {addr : IpAddr} :
    (SourceRestriction.networks nets).permits (some addr) = true ↔ ∃ n ∈ nets, NetworkContains n addr := by
  rw [SourceRestriction.permits, Option.any_some, any_eq_true]
  refine exists_congr fun n => and_congr_right fun _ => inNetwork_iff

/-! ### What was read of a request -/

theorem join_optField {α : Type} (expected : String) (read : Value F → Option α) (body : Value F)
    (key : List Char) :
    (Value.optField expected read body key).toOption.join = (body.getPresent key).bind read := by
  rw [Value.optField]
  cases body.getPresent key with
  | none => rfl
  | some x =>
    dsimp only [Option.bind_some]
    cases read x <;> rfl

theorem join_optFieldArray (body : Value F) (key : List Char) :
    (body.optFieldArray key).toOption.join = (body.getPresent key).bind Value.asArray :=
  join_optField ..

theorem asStr_getD {x : Value F} {s : List Char} (hne : s ≠ []) (h : x.asStr.getD [] = s) :
    x = .string s := by
  cases hx : x.asStr with
  | none =>
    rw [hx] at h
    exact absurd h.symm hne
  | some s' =>
    rw [hx] at h
    exact asStr_eq_some_iff.1 (hx.trans (congrArg some h))

/-- An entry is a network written out, no longer than its family allows. -/
theorem parseEntry_ok {entry : Value F} {network : IpAddr × UInt8} (h : parseEntry entry = .ok network) :
    ∃ s, entry = .string s ∧ NetworkText s network := by
  rw [parseEntry] at h
  split at h
  · cases h
  · rename_i address length hsplit
    split at h
    · cases h
    · rename_i addr haddr
      split at h
      · cases h
      · rename_i bits hbits
        obtain ⟨-, h⟩ := check_eq_ok h
        cases h
        obtain ⟨htext, -⟩ := splitOnce_eq_some_iff.1 hsplit
        have hne : address ++ '/' :: length ≠ [] := append_ne_nil_of_right_ne_nil _ (cons_ne_nil _ _)
        exact ⟨_, asStr_getD hne htext, address, length, rfl, haddr, hbits⟩

/-- What is listed is what the key is limited to, and what is no list is nothing. -/
theorem parseSourceRestriction_ok {body : Value F} {source : SourceRestriction}
    (h : parseSourceRestriction body = .ok source) :
    match (body.getPresent "source_networks".toList).bind Value.asArray with
    | none => source = .any
    | some entries => ∃ nets, source = .networks nets ∧
        Forall₂ (fun v n => ∃ s, v = .string s ∧ NetworkText s n) entries nets := by
  rw [parseSourceRestriction, join_optFieldArray] at h
  cases hentries : (body.getPresent "source_networks".toList).bind Value.asArray with
  | none =>
    rw [hentries] at h
    exact (Except.ok.inj h).symm
  | some entries =>
    rw [hentries] at h
    obtain ⟨-, h⟩ := check_eq_ok h
    obtain ⟨-, h⟩ := check_eq_ok h
    obtain ⟨nets, hnets, rfl⟩ := map_eq_ok h
    exact ⟨nets, rfl, (mapM_eq_ok hnets).imp fun _ _ hab => parseEntry_ok hab⟩

/-- The value lists the names, each at least once. -/
inductive NamesListed : Value F → Option (Finset Identifier) → Prop
  | unlimited : NamesListed .null none
  | names {names : List Identifier} : names ≠ [] →
      NamesListed (.array (names.map fun i => .string i.text)) (some names.toFinset)

theorem parseNames_ok {field : String} {index : ℕ} {items : List (Value F)} {names : List Identifier}
    (h : parseNames field index items = .ok names) : items = names.map fun i => .string i.text := by
  induction items generalizing index names with
  | nil =>
    cases h
    rfl
  | cons item items ih =>
    rw [parseNames] at h
    split at h
    · cases h
    · rename_i name hname
      obtain ⟨rest, hrest, rfl⟩ := map_eq_ok h
      obtain ⟨s, rfl, hs⟩ := bind_asStr.1 hname
      rw [map_cons, ← ih hrest, Identifier.new_eq_some_iff.1 hs]

theorem restrictionList_ok {body : Value F} {field : String} {set : Option (Finset Identifier)}
    (h : restrictionList body field = .ok set) :
    ∃ x, body.get field.toList = some x ∧ NamesListed x set := by
  rw [restrictionList] at h
  split at h
  · cases h
  · rename_i hget
    cases h
    exact ⟨_, hget, .unlimited⟩
  · rename_i items hget
    obtain ⟨hne, h⟩ := check_eq_ok h
    obtain ⟨-, h⟩ := check_eq_ok h
    obtain ⟨names, hnames, rfl⟩ := map_eq_ok h
    obtain rfl := parseNames_ok hnames
    refine ⟨_, hget, .names ?_⟩
    rintro rfl
    exact hne rfl
  · cases h

theorem parsePriority_ok {body : Value F} {priority : Option PriorityClass}
    (h : parsePriority body = .ok priority) :
    ∃ x, body.get "priority".toList = some x ∧ PrioritySays x priority := by
  rw [parsePriority] at h
  split at h
  · cases h
  · rename_i hget
    cases h
    exact ⟨_, hget, .unlimited⟩
  · rename_i value _ hget
    split at h
    · cases h
    · rename_i c hc
      cases h
      obtain ⟨s, rfl, hs⟩ := bind_asStr.1 hc
      rw [PriorityClass.parse_eq_some_iff.1 hs] at hget
      exact ⟨_, hget, .capped c⟩

/-- The restrictions of a value. -/
structure RestrictionsListed (x : Value F) (r : KeyRestriction) : Prop where
  models : ∃ v, x.get "models".toList = some v ∧ NamesListed v r.models
  targets : ∃ v, x.get "targets".toList = some v ∧ NamesListed v r.targets
  hosts : ∃ v, x.get "hosts".toList = some v ∧ NamesListed v r.hosts
  priority : ∃ v, x.get "priority".toList = some v ∧ PrioritySays v r.priority

theorem parseKeyRestrictions_ok {config : Config} {x : Value F} {principal tenant : Identifier}
    {r : KeyRestriction} (h : parseKeyRestrictions config x principal tenant = .ok r) :
    RestrictionsListed x r := by
  obtain ⟨models, hmodels, h⟩ := bind_eq_ok h
  obtain ⟨targets, htargets, h⟩ := bind_eq_ok h
  obtain ⟨hosts, hhosts, h⟩ := bind_eq_ok h
  obtain ⟨priority, hpriority, h⟩ := bind_eq_ok h
  obtain ⟨_, -, h⟩ := bind_eq_ok h
  obtain ⟨_, -, h⟩ := bind_eq_ok h
  obtain ⟨_, -, h⟩ := bind_eq_ok h
  obtain ⟨_, -, h⟩ := bind_eq_ok h
  cases h
  exact ⟨restrictionList_ok hmodels, restrictionList_ok htargets, restrictionList_ok hhosts,
    parsePriority_ok hpriority⟩

/-- The key is narrowed as the body asks: by nothing where there is nothing, or by what an object says. -/
def RestrictionsRequested (body : Value F) (r : KeyRestriction) : Prop :=
  match body.getPresent "restrictions".toList with
  | none => r = .default
  | some x => (∃ entries, x = .object entries) ∧ RestrictionsListed x r

theorem parseInitialRestrictions_ok {config : Config} {body : Value F} {principal tenant : Identifier}
    {r : Option KeyRestriction} (h : parseInitialRestrictions config body principal tenant = .ok r) :
    RestrictionsRequested body (r.getD .default) := by
  rw [parseInitialRestrictions] at h
  rw [RestrictionsRequested, Value.getPresent]
  split at h
  · rename_i hget
    cases h
    rw [hget]
    rfl
  · rename_i hget
    cases h
    rw [hget]
    rfl
  · rename_i entries hget
    obtain ⟨restrictions, hread, hr⟩ := map_eq_ok h
    have hsame : r.getD .default = restrictions := by
      rw [← hr]
      split
      · rename_i hdefault
        exact hdefault.symm
      · rfl
    rw [hget, hsame]
    exact ⟨⟨entries, rfl⟩, parseKeyRestrictions_ok hread⟩
  · cases h

/-- A limit that is present is a number. -/
theorem parseTokenLimit_ok {body : Value F} {limit : Option ℕ} (h : parseTokenLimit body = .ok limit) :
    limit = (body.getPresent "token_limit".toList).bind Value.asU64 ∧
      ((body.getPresent "token_limit".toList).isSome = true → limit ≠ none) := by
  rw [parseTokenLimit] at h
  split at h
  · rename_i hget
    cases h
    rw [Value.getPresent, hget]
    exact ⟨rfl, (by cases ·)⟩
  · rename_i hget
    cases h
    rw [Value.getPresent, hget]
    exact ⟨rfl, (by cases ·)⟩
  · rename_i value hnull hget
    split at h
    · cases h
    · rename_i n hn
      cases h
      rw [getPresent_eq_some_iff.2 ⟨hget, hnull⟩]
      exact ⟨(Option.filter_eq_some_iff.1 hn).1.symm, fun _ h => by cases h⟩

theorem parseScope_ok {raw : Value F} {scope : Scope} (h : parseScope raw = .ok scope) :
    raw = .string scope.asStr.toList := by
  rw [parseScope] at h
  split at h
  · cases h
  · rename_i hparse
    cases h
    refine asStr_getD ?_ (Scope.parse_eq_some_iff.1 hparse)
    cases scope <;> decide

/-- The scopes are a list of names, and the key has all of them. -/
theorem parseScopes_ok {body : Value F} {scopes : List Scope} (h : parseScopes body = .ok scopes) :
    body.get "scopes".toList = some (.array (scopes.map fun s => .string s.asStr.toList)) ∧
      scopes ≠ [] := by
  rw [parseScopes, join_optFieldArray] at h
  split at h
  · cases h
  · rename_i parsed hparsed
    obtain ⟨hne, h⟩ := check_eq_ok h
    cases h
    have hitems := mapM_eq_ok hparsed
    cases harray : (body.getPresent "scopes".toList).bind Value.asArray with
    | none =>
      rw [harray] at hitems
      cases hitems
      exact absurd rfl hne
    | some items =>
      rw [harray, Option.getD_some] at hitems
      obtain ⟨x, hx, hxs⟩ := Option.bind_eq_some_iff.1 harray
      have hlist : items = scopes.map fun s => .string s.asStr.toList := by
        rw [← forall₂_eq_eq_eq, forall₂_map_right_iff]
        exact hitems.imp fun _ _ hab => parseScope_ok hab
      rw [(getPresent_eq_some_iff.1 hx).1, asArray_eq_some_iff.1 hxs, hlist]
      refine ⟨rfl, ?_⟩
      rintro rfl
      exact hne rfl

theorem parseExpiresAt_eq_some_iff {body : Value F} {t : UInt64} :
    parseExpiresAt body = some t ↔
      ∃ x, body.getPresent "expires_at".toList = some x ∧ IntegerSays x t := by
  have hasI64 : ∀ {x : Value F} {i : Int64}, x.asI64 = some i ↔ x = .number (.int i) := by
    intro x i
    cases x with
    | number n =>
      cases n with
      | int j => exact ⟨fun h => by rw [Option.some.inj h], fun h => by cases h; rfl⟩
      | float f => exact ⟨(by cases ·), (by cases ·)⟩
    | null | bool | string | array | object => exact ⟨(by cases ·), (by cases ·)⟩
  have hjoin : (body.optFieldI64 "expires_at".toList).toOption.join =
      (body.getPresent "expires_at".toList).bind Value.asI64 := join_optField ..
  rw [parseExpiresAt, hjoin]
  constructor
  · intro h
    obtain ⟨i, hi, h⟩ := Option.bind_eq_some_iff.1 h
    obtain ⟨x, hx, hint⟩ := Option.bind_eq_some_iff.1 hi
    split at h
    · rename_i hpos
      cases h
      have hlt := Int64.toInt_lt i
      have hsize : i.toInt.toNat < UInt64.size := by
        show i.toInt.toNat < 2 ^ 64
        omega
      refine ⟨x, hx, i, hasI64.1 hint, ?_⟩
      rw [UInt64.toNat_ofNat_of_lt' hsize, Int.toNat_of_nonneg hpos]
    · cases h
  · rintro ⟨x, hx, i, rfl, hi⟩
    rw [hx, Option.bind_some, hasI64.2 rfl, Option.bind_some, hi, if_pos (Int.natCast_nonneg _),
      Int.toNat_natCast, UInt64.ofNat_toNat]

/-- Under the bound of a session, what is asked for is given or refused, and never lengthened. -/
theorem boundExpiry_ok {clock : Clock} {minter : Minter} {requested expires : Option UInt64}
    (h : boundExpiry clock minter requested = .ok expires) :
    (∀ t, requested = some t → expires = some t) ∧
      (requested = none → expires =
        if keysCappedToSession minter then some (breakGlassKeyBound clock minter) else none) ∧
      (keysCappedToSession minter = true →
        ∃ t, expires = some t ∧ t ≤ breakGlassKeyBound clock minter) := by
  rw [boundExpiry] at h
  split at h
  · rename_i hcapped
    dsimp only at h
    split at h
    · cases h
      refine ⟨by rintro t ⟨⟩, fun _ => (if_pos hcapped).symm, fun _ => ⟨_, rfl, UInt64.le_refl _⟩⟩
    · rename_i t
      split at h
      · rename_i hle
        cases h
        refine ⟨fun _ h => h, by rintro ⟨⟩, fun _ => ⟨t, rfl, hle⟩⟩
      · cases h
  · rename_i hfree
    cases h
    refine ⟨fun _ h => h, ?_, fun hcapped => absurd hcapped hfree⟩
    rintro rfl
    exact (if_neg hfree).symm

/-- What was read of a request that is not refused. -/
theorem parseRequest_ok {w : Surroundings} {body : Value F} {request : KeyRequest}
    (h : parseRequest w body = .ok request) :
    parseScopes body = .ok request.scopes ∧
      boundExpiry w.clock w.minter (parseExpiresAt body) = .ok request.expiresAtMillis ∧
      parseSourceRestriction body = .ok request.source ∧
      (∃ limit payment, parseTokenLimit body = .ok limit ∧
        (limit ≠ none → request.budget = some (limit, payment))) ∧
      ∃ principal, parseInitialRestrictions w.config body principal w.minter.tenant =
        .ok request.restrictions := by
  obtain ⟨principal, -, h⟩ := bind_eq_ok h
  obtain ⟨scopes, hscopes, h⟩ := bind_eq_ok h
  obtain ⟨_, -, h⟩ := bind_eq_ok h
  obtain ⟨expires, hexpires, h⟩ := bind_eq_ok h
  obtain ⟨source, hsource, h⟩ := bind_eq_ok h
  obtain ⟨limit, hlimit, h⟩ := bind_eq_ok h
  obtain ⟨payment, -, h⟩ := bind_eq_ok h
  obtain ⟨restrictions, hrestrictions, h⟩ := bind_eq_ok h
  cases h
  refine ⟨hscopes, hexpires, hsource, ⟨limit, payment, hlimit, fun hne => ?_⟩, principal, hrestrictions⟩
  refine if_neg fun hnone => hne ?_
  exact Option.isNone_iff_eq_none.1 hnone.1

/-! ### The key and the log -/

/-- The record as it is in memory. -/
def KeyRequest.narrowed (request : KeyRequest) (w : Surroundings) (id : Identifier) (verifier : Digest) :
    KeyRecord :=
  { request.record w id verifier with restrictions := request.restrictions.getD .default }

/-- In memory there is one more key, and in the log no more records of keys. -/
structure Minted (s₀ : KeyState) (record : KeyRecord) (s : KeyState) : Prop where
  keys : s.keys = Function.update s₀.keys record.id (some record)
  log : ∀ r, .apiKey r ∈ s.log → .apiKey r ∈ s₀.log

/-- What a creation may leave behind: the key that is reported, or no usable one. -/
def Outcome (s₀ : KeyState) (record : KeyRecord) (limits : List Entry)
    (result : KeyState × Except ApiError Created) : Prop :=
  match result.2 with
  | .ok created =>
    created = ⟨record.id, record.principal, record.scopes, record.expiresAtMillis, record.restrictions⟩ ∧
      result.1.keys = Function.update s₀.keys record.id (some record) ∧
      .apiKey { record with restrictions := .default } ∈ result.1.log ∧
      ∀ entry ∈ limits, entry ∈ result.1.log
  | .error _ => (∀ id, result.1.keys id = s₀.keys id ∨
        ∃ r, result.1.keys id = some r ∧ r.revoked = true) ∧
      ∀ r, .apiKey r ∈ result.1.log → .apiKey r ∈ s₀.log

theorem Minted.append {s₀ s : KeyState} {record : KeyRecord} (h : Minted s₀ record s) {entry : Entry}
    (hentry : ∀ r, entry ≠ .apiKey r) : Minted s₀ record (s.append entry) := by
  refine ⟨h.keys, fun r hr => ?_⟩
  rcases mem_append.1 hr with hr | hr
  · exact h.log r hr
  · exact absurd (mem_singleton.1 hr).symm (hentry r)

/-- A key that is revoked again is not usable, whatever else is appended. -/
theorem Minted.refused {s₀ s : KeyState} {record : KeyRecord} (h : Minted s₀ record s) {s' : KeyState}
    {limits : List Entry} (hkeys : s'.keys = (s.revoke record.id).keys)
    (hlog : ∀ r, .apiKey r ∈ s'.log → .apiKey r ∈ s.log) (e : ApiError) :
    Outcome s₀ record limits (s', .error e) := by
  refine ⟨fun id => ?_, fun r hr => h.log r (hlog r hr)⟩
  rw [hkeys, KeyState.revoke, h.keys]
  by_cases hid : id = record.id
  · subst hid
    right
    refine ⟨{ record with revoked := true }, ?_, rfl⟩
    show Function.update _ _ _ _ = _
    rw [Function.update_self, Function.update_self, Option.map_some]
  · left
    show Function.update _ _ _ _ = _
    rw [Function.update_of_ne hid, Function.update_of_ne hid]

theorem recordAbandoned_keys (w : Surroundings) (event : Store.AuditEvent) (why : String)
    (s : KeyState) : (recordAbandoned w event why s).keys = s.keys := by
  rw [recordAbandoned]
  split <;> rfl

theorem recordAbandoned_log (w : Surroundings) (event : Store.AuditEvent) (why : String) (s : KeyState) :
    ∀ r, .apiKey r ∈ (recordAbandoned w event why s).log → .apiKey r ∈ s.log := by
  intro r hr
  rw [recordAbandoned] at hr
  split at hr
  · rcases mem_append.1 hr with hr | hr
    · exact hr
    · have hsame := mem_singleton.1 hr
      cases hsame
  · exact hr

/-- **A commit appends its entry or revokes the key.** -/
theorem Minted.commit {w : Surroundings} {event : Store.AuditEvent} {entry : Option Entry} {ok : Bool}
    {why message : String} {next : KeyState → KeyState × Except ApiError Created} {s₀ s : KeyState}
    {record : KeyRecord} {limits : List Entry} (h : Minted s₀ record s)
    (hnext : Outcome s₀ record limits (next { s with log := s.log ++ entry.toList })) :
    Outcome s₀ record limits (Creation.commit w record.id event entry ok why message next s) := by
  cases entry with
  | none =>
    rw [Option.toList_none, append_nil] at hnext
    exact hnext
  | some entry =>
    rw [Creation.commit]
    split
    · exact hnext
    · exact h.refused (recordAbandoned_keys w event why _) (recordAbandoned_log w event why _) _

theorem Minted.appendAll {s₀ s : KeyState} {record : KeyRecord} (h : Minted s₀ record s)
    {entry : Option Entry} (hentry : ∀ r, entry ≠ some (.apiKey r)) :
    Minted s₀ record { s with log := s.log ++ entry.toList } := by
  cases entry with
  | none =>
    rw [Option.toList_none, append_nil]
    exact h
  | some e => exact h.append fun r hr => hentry r (congrArg some hr)

/-- What limits the key beside its record. -/
def KeyRequest.limits (request : KeyRequest) (tenant id : Identifier) : List Entry :=
  (request.budget.map fun b => .budget id tenant b.1 b.2).toList ++
    (request.restrictions.map fun r => .apiKeyRestriction ⟨id, r⟩).toList

/-- The keys in memory with the new one, and its restrictions. -/
def KeyRequest.stored (request : KeyRequest) (w : Surroundings) (id : Identifier) (verifier : Digest)
    (s : KeyState) : KeyState :=
  match request.restrictions with
  | some restrictions => (s.insert (request.record w id verifier)).setRestrictions id restrictions
  | none => s.insert (request.record w id verifier)

/-- **What a creation leaves behind**, whichever append fails. -/
theorem mint_outcome (w : Surroundings) (request : KeyRequest) (id : Identifier) (verifier : Digest)
    (s : KeyState) :
    Outcome s (request.narrowed w id verifier) (request.limits w.minter.tenant id)
      (mint w request id verifier s) := by
  have hid : (request.narrowed w id verifier).id = id := rfl
  have hminted : Minted s (request.narrowed w id verifier) (request.stored w id verifier s) := by
    rw [KeyRequest.stored]
    cases hr : request.restrictions with
    | none =>
      refine ⟨?_, fun r h => h⟩
      show Function.update s.keys id _ = _
      rw [hid, KeyRequest.narrowed, hr]
      rfl
    | some restrictions =>
      refine ⟨?_, fun r h => h⟩
      show Function.update (Function.update s.keys id _) id _ = _
      rw [Function.update_idem, hid, KeyRequest.narrowed, hr]
      show Function.update s.keys id ((Function.update s.keys id _ id).map _) = _
      rw [Function.update_self]
      rfl
  have hbudget : ∀ r, (request.budget.map fun b => Entry.budget id w.minter.tenant b.1 b.2) ≠
      some (.apiKey r) := by
    intro r hr
    obtain ⟨b, -, hb⟩ := Option.map_eq_some_iff.1 hr
    cases hb
  have hrestriction : ∀ r, (request.restrictions.map fun r => Entry.apiKeyRestriction ⟨id, r⟩) ≠
      some (.apiKey r) := by
    intro r hr
    obtain ⟨b, -, hb⟩ := Option.map_eq_some_iff.1 hr
    cases hb
  rw [mint]
  split
  · have h₁ := (hminted.append (by rintro r ⟨⟩) : Minted s _ (KeyState.append _ (.audit (request.event w id))))
    have h₂ := h₁.appendAll hbudget
    have h₃ := h₂.appendAll hrestriction
    refine h₁.commit (h₂.commit (h₃.commit ⟨rfl, h₃.keys, mem_append_right _ mem_cons_self, ?_⟩))
    intro entry hentry
    refine mem_append_left _ ?_
    rw [append_assoc]
    exact mem_append_right _ hentry
  · exact hminted.refused rfl (fun r hr => hr) _

/-! ### Limits -/

/-- What a created key is limited to whatever is asked: what was strictly read, and what an absent
expiry or list stands for. -/
structure Limited (w : Surroundings) (body : Value F) (record : KeyRecord) (log : List Entry) : Prop where
  scopes : body.get "scopes".toList = some (.array (record.scopes.map fun s => .string s.asStr.toList))
  restrictions : RestrictionsRequested body record.restrictions
  restrictionsLogged : record.restrictions ≠ .default →
    .apiKeyRestriction ⟨record.id, record.restrictions⟩ ∈ log
  tokenLimit : ∀ x, body.getPresent "token_limit".toList = some x → ∃ n payment,
    x.asU64 = some n ∧ .budget record.id w.minter.tenant (some n) payment ∈ log
  noExpiry : body.getPresent "expires_at".toList = none → record.expiresAtMillis =
    if keysCappedToSession w.minter then some (breakGlassKeyBound w.clock w.minter) else none
  bound : keysCappedToSession w.minter = true →
    ∃ t, record.expiresAtMillis = some t ∧ t ≤ breakGlassKeyBound w.clock w.minter
  noNetworks : body.getPresent "source_networks".toList = none → record.source = .any

/-- The expiry that is asked for, and the networks. -/
structure LimitsKept (body : Value F) (record : KeyRecord) : Prop where
  expiry : ∀ x, body.getPresent "expires_at".toList = some x →
    ∃ t, record.expiresAtMillis = some t ∧ IntegerSays x t
  source : ∀ x, body.getPresent "source_networks".toList = some x →
    ∃ items nets, x = .array items ∧ record.source = .networks nets ∧
      Forall₂ (fun v n => ∃ s, v = .string s ∧ NetworkText s n) items nets

/-- The expiry is a natural number and the networks are a list, where they are present. -/
structure LimitsReadable (body : Value F) : Prop where
  expiry : ∀ x, body.getPresent "expires_at".toList = some x → ∃ t, IntegerSays x t
  source : ∀ x, body.getPresent "source_networks".toList = some x → ∃ items, x = .array items

theorem KeyRequest.limited {w : Surroundings} {body : Value F} {request : KeyRequest} {id : Identifier}
    {verifier : Digest} {log : List Entry} (h : parseRequest w body = .ok request)
    (hlog : ∀ entry ∈ request.limits w.minter.tenant id, entry ∈ log) :
    Limited w body (request.narrowed w id verifier) log := by
  obtain ⟨hscopes, hexpiry, hsource, ⟨limit, payment, hlimit, hbudget⟩, principal, hrestrictions⟩ :=
    parseRequest_ok h
  obtain ⟨-, habsent, hbound⟩ := boundExpiry_ok hexpiry
  refine {
    scopes := (parseScopes_ok hscopes).1
    restrictions := parseInitialRestrictions_ok hrestrictions
    restrictionsLogged := fun hne => hlog _ (mem_append_right _ ?_)
    tokenLimit := fun x hx => ?_
    noExpiry := fun hnone => habsent ?_
    bound := hbound
    noNetworks := fun hnone => ?_ }
  · -- no restrictions are the default ones
    cases hr : request.restrictions with
    | none =>
      refine absurd ?_ hne
      rw [KeyRequest.narrowed, hr]
      rfl
    | some r =>
      rw [KeyRequest.narrowed, hr]
      exact mem_cons_self
  · obtain ⟨hread, hpresent⟩ := parseTokenLimit_ok hlimit
    rw [hx] at hread hpresent
    have hsome := hpresent rfl
    obtain ⟨n, rfl⟩ := Option.ne_none_iff_exists'.1 hsome
    refine ⟨n, payment, hread.symm, hlog _ (mem_append_left _ ?_)⟩
    rw [hbudget hsome]
    exact mem_cons_self
  · cases hread : parseExpiresAt body with
    | none => rfl
    | some t =>
      obtain ⟨x, hx, -⟩ := parseExpiresAt_eq_some_iff.1 hread
      rw [hnone] at hx
      cases hx
  · have hread := parseSourceRestriction_ok hsource
    rw [hnone] at hread
    exact hread

/-- **The limits are kept if and only if they are readable.** -/
theorem KeyRequest.limitsKept_iff {w : Surroundings} {body : Value F} {request : KeyRequest}
    {id : Identifier} {verifier : Digest} (h : parseRequest w body = .ok request) :
    LimitsKept body (request.narrowed w id verifier) ↔ LimitsReadable body := by
  obtain ⟨-, hexpiry, hsource, -, -⟩ := parseRequest_ok h
  obtain ⟨hgiven, -, -⟩ := boundExpiry_ok hexpiry
  constructor
  · intro hkept
    refine ⟨fun x hx => ?_, fun x hx => ?_⟩
    · obtain ⟨t, -, ht⟩ := hkept.expiry x hx
      exact ⟨t, ht⟩
    · obtain ⟨items, -, hitems, -⟩ := hkept.source x hx
      exact ⟨items, hitems⟩
  · intro hreadable
    refine ⟨fun x hx => ?_, fun x hx => ?_⟩
    · obtain ⟨t, ht⟩ := hreadable.expiry x hx
      exact ⟨t, hgiven t (parseExpiresAt_eq_some_iff.2 ⟨x, hx, ht⟩), ht⟩
    · obtain ⟨items, rfl⟩ := hreadable.source x hx
      have hread := parseSourceRestriction_ok hsource
      rw [hx] at hread
      obtain ⟨nets, hnets, hitems⟩ := hread
      exact ⟨items, nets, rfl, hnets, hitems⟩

/-- A request is refused before there is a key, or is read and the key is minted. -/
theorem createKey_cases (floats : FloatText F) (w : Surroundings) (bytes : List UInt8) (s : KeyState) :
    (∃ e, createKey floats w bytes s = (s, .error e)) ∨
      ∃ body request id verifier, Json.parse floats .small bytes = .ok body ∧
        parseRequest w body = .ok request ∧
        createKey floats w bytes s = mint w request id verifier s := by
  rw [createKey]
  split
  · rename_i e _
    exact .inl ⟨e, rfl⟩
  · rename_i request hrequest
    obtain ⟨_, -, hrequest⟩ := bind_eq_ok hrequest
    obtain ⟨body, hbody, hrequest⟩ := bind_eq_ok hrequest
    split
    · exact .inl ⟨_, rfl⟩
    · rename_i id verifier _
      refine .inr ⟨body, request, id, verifier, ?_, hrequest, rfl⟩
      rw [parseBody] at hbody
      split at hbody
      · cases hbody
      · rename_i value hvalue
        cases hbody
        exact hvalue

/-- **What a created key is limited to.**  It is in memory, not revoked, and in the log, with the scopes,
the restrictions and the budget that were asked for, and within the bound of its session; and it is
limited to the expiry and the networks that were asked for if and only if these are readable.  A request
that is refused leaves every key as it was or revoked, and no record of a key in the log. -/
theorem creation_keeps_limits (floats : FloatText F) (w : Surroundings) (bytes : List UInt8)
    (s : KeyState) :
    match (createKey floats w bytes s).2 with
    | .ok created => ∃ body record, Json.parse floats .small bytes = .ok body ∧
        created = ⟨record.id, record.principal, record.scopes, record.expiresAtMillis,
          record.restrictions⟩ ∧
        (createKey floats w bytes s).1.keys = Function.update s.keys record.id (some record) ∧
        record.revoked = false ∧
        .apiKey { record with restrictions := .default } ∈ (createKey floats w bytes s).1.log ∧
        Limited w body record (createKey floats w bytes s).1.log ∧
        (LimitsKept body record ↔ LimitsReadable body)
    | .error _ =>
      (∀ id, (createKey floats w bytes s).1.keys id = s.keys id ∨
        ∃ r, (createKey floats w bytes s).1.keys id = some r ∧ r.revoked = true) ∧
      ∀ r, .apiKey r ∈ (createKey floats w bytes s).1.log → .apiKey r ∈ s.log := by
  obtain ⟨e, hrefused⟩ | ⟨body, request, id, verifier, hbody, hrequest, hmint⟩ :=
    createKey_cases floats w bytes s
  · rw [hrefused]
    exact ⟨fun _ => .inl rfl, fun _ hr => hr⟩
  · have houtcome := mint_outcome w request id verifier s
    rw [Outcome] at houtcome
    rw [hmint]
    split at houtcome
    · rename_i created hcreated
      obtain ⟨hreported, hkeys, hlog, hlimits⟩ := houtcome
      exact ⟨body, request.narrowed w id verifier, hbody, hreported, hkeys, rfl, hlog,
        KeyRequest.limited hrequest hlimits, KeyRequest.limitsKept_iff hrequest⟩
    · exact houtcome

/-! ### A request -/

namespace Sample

open Auth.Stored.Sample

/-- A list of networks as one string, and a date. -/
def dropped : List (List Char × Value Unit) :=
  [("principal".toList, .string "svc".toList),
    ("scopes".toList, .array [.string "inference".toList]),
    ("source_networks".toList, .string "10.0.0.0/8".toList),
    ("expires_at".toList, .string "2030-01-01".toList)]

theorem tenant_valid : Admin.validate (String.ofList "t1".toList) = true := by decide

theorem principal_valid : Admin.validate (String.ofList "ann".toList) = true := by decide

theorem drawn_valid : Admin.validate (String.ofList "k1".toList) = true := by decide

/-- A key manager, and a configuration that allows nothing. -/
def surroundings : Surroundings where
  authorization := .ok ()
  config := ⟨fun _ _ => [], fun _ _ => ⟨∅, ∅, ∅, .standard⟩, fun _ => false, fun _ => false,
    fun _ => false⟩
  checkPayment := fun _ _ => .ok none
  minter := ⟨ident "t1".toList tenant_valid, ident "ann".toList principal_valid, none, .oidc, [.keyManager], 1000⟩
  clock := ⟨0, 0, 0, 0, 0⟩
  drawn := some (ident "k1".toList drawn_valid, zeroDigest)
  appends := ⟨true, true, true, true, true⟩

theorem dropped_read :
    Json.parse oneAndAHalf .small (written oneAndAHalf (.object dropped)) = .ok (.object dropped) := by
  have hparts : ∀ e ∈ dropped, PartFits oneAndAHalf 10000 e := by
    rw [dropped]
    simp only [forall_mem_cons]
    exact ⟨partFits_string (by decide), partFits_strings (by decide), partFits_string (by decide),
      partFits_string (by decide), fun e he => by cases he⟩
  obtain ⟨haccepted, hfloats⟩ := accepted_parts hparts (by decide) (by decide) (by decide)
  rw [written, Json.toString]
  exact (parse_gives (hfloats.printable oneAndAHalf)).eq_ok haccepted

/-- **Limits are dropped**: the key may be used from anywhere, and for ever. -/
theorem networks_dropped :
    ¬∀ bytes s created, (createKey oneAndAHalf surroundings bytes s).2 = .ok created →
      ∃ body record, Json.parse oneAndAHalf .small bytes = .ok body ∧
        (createKey oneAndAHalf surroundings bytes s).1.keys created.id = some record ∧
        LimitsKept body record := by
  intro h
  have hrequest : parseRequest surroundings (.object dropped) =
      .ok ⟨ident "svc".toList, [.inference], none, .any, none, none, none⟩ := rfl
  have hmint : createKey oneAndAHalf surroundings (written oneAndAHalf (.object dropped)) ⟨fun _ => none, []⟩ =
      mint surroundings ⟨ident "svc".toList, [.inference], none, .any, none, none, none⟩
        (ident "k1".toList) zeroDigest ⟨fun _ => none, []⟩ := by
    rw [createKey, parseBody, dropped_read]
    rfl
  obtain ⟨body, record, hbody, hrecord, hkept⟩ := h (written oneAndAHalf (.object dropped))
    ⟨fun _ => none, []⟩ ⟨ident "k1".toList, ident "svc".toList, [.inference], none, .default⟩
    (by rw [hmint]; rfl)
  obtain rfl := Except.ok.inj (dropped_read.symm.trans hbody)
  rw [hmint] at hrecord
  obtain ⟨items, -, hitems, -⟩ := hkept.source _ rfl
  cases hitems

end Sample

end HypeLlm.Admin.Creation
