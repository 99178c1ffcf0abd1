import Recertia.Lib.OwnedPool
import Recertia.Lib.Text
import Recertia.Lib.Transition
import Mathlib.Algebra.Order.Ring.Rat
import Mathlib.Data.List.DropRight
import Mathlib.Data.Rat.Defs

/-! The OIDC login of the console (`api/console_auth.py`): the client that a start is counted for,
the pending starts, and the callback that ends one in a session. -/
namespace Recertia.Auth

open OwnedPool Transition

/-! ### The client of a request -/

/-- What `ipaddress` makes of a text: the address with IPv4-mapped IPv6 folded to IPv4, and the key
of an address, for IPv6 its /64. -/
structure Addresses (IP : Type*) where
  parse : String → Option IP
  key : IP → String

def oidcUnknownClient : String := "unknown"

def oidcRewrittenClient : String := "proxy-headers-rewritten"

/-- `s.split(sep)` -/
def splitAt (sep : Char) (s : String) : List String := (s.toList.splitOn sep).map String.ofList

/-- The hops of all `X-Forwarded-For` lines, in order. -/
def hopsOf (forwardedFor : List String) : List String :=
  forwardedFor.flatMap fun value => (splitAt ',' value).map Text.strip

variable {IP : Type*} [DecidableEq IP] (addresses : Addresses IP) (trusted : IP → Bool)

/-- `_ip` -/
def ip (value : String) : Option IP := addresses.parse (Text.strip value)

/-- `_hop_ip_loose` -/
def hopIpLoose (hop : String) : Option IP :=
  let h := Text.strip hop
  if h.toList.head? = some '[' then
    ip addresses ((splitAt ']' (String.ofList (h.toList.drop 1))).headD "")
  else if h.toList.count ':' = 1 then ip addresses ((splitAt ':' h).headD "")
  else ip addresses h

/-- The hops without the trailing ones that are the peer itself. -/
def withoutSelfHops (hops : List String) (peerIp : IP) : List String :=
  let tail := hops.rdropWhile fun hop => ip addresses hop = some peerIp
  if tail ≠ [] ∧ tail.length < hops.length ∧ some peerIp ∉ tail.map (hopIpLoose addresses) then tail
  else hops

/-- `_rightmost_client_key`, over the hops from the right -/
def rightmostClientKey (peerIp : IP) : List String → String
  | [] => addresses.key peerIp
  | hop :: hops =>
    match if hop = "" then none else ip addresses hop with
    | none => addresses.key peerIp
    | some client => if trusted client then rightmostClientKey peerIp hops else addresses.key client

/-- `oidc_client_key` -/
def oidcClientKey (peer : Option String) (forwardedFor : List String) (peerPort : Option ℕ) :
    String :=
  match peer with
  | none => oidcUnknownClient
  | some peer =>
    if peer = "" then oidcUnknownClient
    else if 16 < forwardedFor.length ∨ 8192 < (forwardedFor.map String.length).sum then
      oidcRewrittenClient
    else
      let hops := hopsOf forwardedFor
      if 64 < hops.length then oidcRewrittenClient
      else
        match ip addresses peer with
        | none => oidcRewrittenClient
        | some peerIp =>
          -- Without a hop there is nothing to drop.
          let hops := if peerPort.getD 0 ≠ 0 ∧ trusted peerIp = true then
              withoutSelfHops addresses hops peerIp else hops
          if Text.strip peer ∈ hops ∨ some peerIp ∈ hops.map (hopIpLoose addresses) then
            oidcRewrittenClient
          else if !trusted peerIp then addresses.key peerIp
          else rightmostClientKey addresses trusted peerIp hops.reverse

/-! ### The pending starts -/

structure OidcPending where
  verifier : String
  redirectUri : String
  createdAt : ℚ
  nonce : String
  clientKey : String
  deriving DecidableEq

/-- `_OIDC_PENDING_PER_CLIENT` and `_OIDC_PENDING_MAX`, as `_validate_oidc_limits` wants them -/
def oidcLimits : Limits := ⟨16, 1024, by decide, by decide⟩

/-- The part of the store that logins use. -/
structure SessionStore where
  oidc : Table String OidcPending := .empty
  /-- the `jti` claims that have been seen -/
  jti : List String := []

/-- `now - created_at > _OIDC_TTL_S` -/
def OidcPending.expired (now : ℚ) (pending : OidcPending) : Bool :=
  decide (600 < now - pending.createdAt)

def purgeOidc (now : ℚ) (oidc : Table String OidcPending) : Table String OidcPending :=
  oidc.delete fun _ pending => pending.expired now

/-- `begin_oidc`, with what it draws -/
def beginOidc (now : ℚ) (state : String) (pending : OidcPending) (s : SessionStore) :
    SessionStore :=
  { s with oidc := enter OidcPending.clientKey oidcLimits state pending (purgeOidc now s.oidc) }

def takeOidc (now : ℚ) (state : String) (s : SessionStore) : SessionStore × Option OidcPending :=
  let oidc := purgeOidc now s.oidc
  ({ s with oidc := oidc.delete fun k _ => k = state }, oidc.get? state)

/-! ### The callback -/

inductive LoginError
  | exchangeFailed
  | nonceRejected
  | jtiMissing
  | jtiDuplicate
  deriving DecidableEq, Repr

/-- `claim_jti` -/
def claimJti (jti : String) (s : SessionStore) : Except LoginError SessionStore :=
  if jti = "" ∨ jti.toList.any Text.isSpace then .error .jtiMissing
  else if jti ∈ s.jti then .error .jtiDuplicate
  else .ok { s with jti := jti :: s.jti }

/-- The two claims of an id token, where they are texts. -/
structure IdToken where
  nonce : Option String
  jti : Option String

/-- `_check_id_token` -/
def checkIdToken (token : IdToken) (nonce : String) (s : SessionStore) :
    Except LoginError SessionStore :=
  if token.nonce ≠ some nonce then .error .nonceRejected
  else
    match token.jti with
    | none => .error .jtiMissing
    | some jti => claimJti jti s

variable {U : Type*}

/-- A callback that has taken its start, and asks the provider. -/
structure Exchange where
  state : String
  pending : OidcPending
  /-- when it came -/
  now : ℚ

structure Session (U : Type*) extends Exchange where
  token : IdToken
  user : U

/-- What the provider answers to a code and a verifier: an id token, and behind it the user. -/
abbrev Answer (U : Type*) := Option (IdToken × Option U)

/-- `oidc_exchange_code`, behind the provider's answer -/
def oidcExchangeCode (x : Exchange) (answer : Answer U) (s : SessionStore) :
    SessionStore × Except LoginError (Session U) :=
  match answer with
  | none => (s, .error .exchangeFailed)
  | some (token, user) =>
    match checkIdToken token x.pending.nonce s with
    | .error e => (s, .error e)
    -- The `jti` is spent though the user cannot be read.
    | .ok s => (s, user.elim (.error .exchangeFailed) fun user => .ok { x with token, user })

/-- The store, and the callbacks that are under way: no lock is held while the provider is asked,
and none from the claim of the `jti` to the session. -/
structure Console (U : Type*) where
  store : SessionStore := {}
  exchanging : List Exchange := []
  granted : List (Session U) := []

/-- `oidc_callback`, up to the provider -/
def oidcCallback (now : ℚ) (state : String) (c : Console U) : Console U :=
  let (store, pending) := takeOidc now state c.store
  { c with
    store
    exchanging := (pending.map fun pending => ⟨state, pending, now⟩).toList ++ c.exchanging }

/-- A request for a start, as it reaches the API. -/
structure Start where
  peer : Option String
  forwardedFor : List String
  peerPort : Option ℕ

inductive Label (U : Type*)
  | login (request : Start) (now created : ℚ) (state verifier nonce redirectUri : String)
  | callback (now : ℚ) (state : String)
  | exchange (i : ℕ) (answer : Answer U)
  | issue (i : ℕ)

/-- The record of a start. -/
def pendingOf (request : Start) (created : ℚ) (verifier nonce redirectUri : String) : OidcPending :=
  { verifier, redirectUri, createdAt := created, nonce
    clientKey :=
      oidcClientKey addresses trusted request.peer request.forwardedFor request.peerPort }

def loginStep (c : Console U) : Label U → Option (Console U)
  | .login request now created state verifier nonce redirectUri =>
    some { c with
      store := beginOidc now state
        (pendingOf addresses trusted request created verifier nonce redirectUri) c.store }
  | .callback now state => some (oidcCallback now state c)
  | .exchange i answer =>
    c.exchanging[i]?.map fun x =>
      let (store, result) := oidcExchangeCode x answer c.store
      { store
        exchanging := c.exchanging.eraseIdx i
        granted := result.toOption.toList ++ c.granted }
  | .issue i => c.granted[i]?.map fun _ => { c with granted := c.granted.eraseIdx i }

def loginSystem (U : Type*) : System (Console U) (Label U) where
  step := loginStep addresses trusted

variable {addresses trusted}

/-! ### What a header can do -/

/-- What a proxy hands on: the address it was reached from, at the end of the last line. -/
def forwardBy (forwardedFor : List String) (addr : String) : List String :=
  match forwardedFor.getLast? with
  | none => [addr]
  | some last => forwardedFor.dropLast ++ [last ++ ", " ++ addr]

theorem splitAt_append (s addr : String) (h : ',' ∉ addr.toList) :
    splitAt ',' (s ++ ", " ++ addr) = splitAt ',' s ++ [" " ++ addr] := by
  have hchars : (s ++ ", " ++ addr).toList = s.toList ++ ',' :: (' ' :: addr.toList) := by
    simp
  have hlast : (' ' :: addr.toList).splitOn ',' = [' ' :: addr.toList] := by
    apply List.splitOn_eq_singleton
    simpa using h
  have htext : String.ofList (' ' :: addr.toList) = " " ++ addr := by
    rw [← String.toList_inj]
    simp
  unfold splitAt
  rw [hchars, List.splitOn_append_cons_self, hlast, List.map_append, List.map_singleton, htext]

theorem splitAt_single {addr : String} (h : ',' ∉ addr.toList) : splitAt ',' addr = [addr] := by
  unfold splitAt
  rw [List.splitOn_eq_singleton h, List.map_singleton, String.ofList_toList]

theorem strip_blank (s : String) : Text.strip (" " ++ s) = Text.strip s := by
  have hchars : (" " ++ s).toList = ' ' :: s.toList := by simp
  unfold Text.strip Text.stripChars
  rw [hchars, List.dropWhile_cons_of_pos (by decide)]

/-- A proxy adds one hop, and changes none. -/
theorem hopsOf_forwardBy (forwardedFor : List String) {addr : String} (h : ',' ∉ addr.toList) :
    hopsOf (forwardBy forwardedFor addr) = hopsOf forwardedFor ++ [Text.strip addr] := by
  unfold forwardBy
  cases hlast : forwardedFor.getLast? with
  | none =>
    rw [List.getLast?_eq_none_iff.mp hlast]
    simp [hopsOf, splitAt_single h]
  | some last =>
    obtain ⟨lines, rfl⟩ := List.getLast?_eq_some_iff.mp hlast
    simp only [hopsOf, List.dropLast_concat, List.flatMap_append, List.flatMap_singleton,
      splitAt_append last addr h, List.map_append, List.map_singleton, strip_blank,
      List.append_assoc]

/-- The text of an address as a proxy writes it. -/
structure Names (addresses : Addresses IP) (addr : String) (x : IP) : Prop where
  plain : ',' ∉ addr.toList
  stripped : Text.strip addr = addr
  nonempty : addr ≠ ""
  parses : ip addresses addr = some x

omit [DecidableEq IP] in
theorem hopsOf_forwarded {addrs : List String}
    (h : ∀ addr ∈ addrs, ∃ x, Names addresses addr x) (sent : List String) :
    hopsOf (addrs.foldl forwardBy sent) = hopsOf sent ++ addrs := by
  induction addrs generalizing sent with
  | nil => exact (List.append_nil _).symm
  | cons addr addrs ih =>
    obtain ⟨x, hx⟩ := h addr List.mem_cons_self
    rw [List.foldl_cons, ih (fun a ha => h a (List.mem_cons_of_mem _ ha)),
      hopsOf_forwardBy sent hx.plain, hx.stripped, List.append_assoc, List.singleton_append]

/-- A request of a host: straight to the API, or through proxies that the API trusts, each of which
hands on the address it was reached from. What the host itself has sent is arbitrary. -/
inductive ComesFrom (addresses : Addresses IP) (trusted : IP → Bool) (host : IP) : Start → Prop
  | direct {peer : String} (forwardedFor : List String) (peerPort : Option ℕ) (hpeer : peer ≠ "")
    (hip : ip addresses peer = some host) (hhost : trusted host = false) :
    ComesFrom addresses trusted host ⟨some peer, forwardedFor, peerPort⟩
  | proxied {peer addr : String} {peerIp : IP} (sent proxies : List String) (peerPort : Option ℕ)
    (hpeer : peer ≠ "") (hip : ip addresses peer = some peerIp) (htrusted : trusted peerIp = true)
    (haddr : Names addresses addr host) (hhost : trusted host = false)
    (hproxies : ∀ proxy ∈ proxies,
      ∃ x, Names addresses proxy x ∧ trusted x = true ∧ x ≠ peerIp) :
    ComesFrom addresses trusted host ⟨some peer, (addr :: proxies).foldl forwardBy sent, peerPort⟩

omit [DecidableEq IP] in
/-- The walk from the right ends at the host that the outermost proxy saw. -/
theorem rightmostClientKey_proxies {addr : String} {host peerIp : IP} {proxies : List String}
    (haddr : Names addresses addr host) (hhost : trusted host = false)
    (hproxies : ∀ proxy ∈ proxies, ∃ x, Names addresses proxy x ∧ trusted x = true)
    (sent : List String) :
    rightmostClientKey addresses trusted peerIp (proxies.reverse ++ addr :: sent) =
      addresses.key host := by
  generalize hwalk : proxies.reverse = walk
  have hwalk' : ∀ proxy ∈ walk, ∃ x, Names addresses proxy x ∧ trusted x = true := by
    intro proxy hmem
    exact hproxies proxy (List.mem_reverse.mp (hwalk ▸ hmem))
  clear hwalk hproxies
  induction walk with
  | nil =>
    rw [List.nil_append, rightmostClientKey, if_neg haddr.nonempty, haddr.parses]
    simp [hhost]
  | cons proxy walk ih =>
    obtain ⟨x, hx, htrusted⟩ := hwalk' proxy List.mem_cons_self
    rw [List.cons_append, rightmostClientKey, if_neg hx.nonempty, hx.parses]
    simp only [htrusted, if_true]
    exact ih fun p hp => hwalk' p (List.mem_cons_of_mem _ hp)

theorem oidcClientKey_cases {peer : String} {peerIp : IP} (hpeer : peer ≠ "")
    (hip : ip addresses peer = some peerIp) (forwardedFor : List String) (peerPort : Option ℕ) :
    oidcClientKey addresses trusted (some peer) forwardedFor peerPort = oidcRewrittenClient ∨
    trusted peerIp = false ∧
      oidcClientKey addresses trusted (some peer) forwardedFor peerPort = addresses.key peerIp ∨
    trusted peerIp = true ∧ ∃ hops, (hops = hopsOf forwardedFor ∨
        hops = withoutSelfHops addresses (hopsOf forwardedFor) peerIp) ∧
      oidcClientKey addresses trusted (some peer) forwardedFor peerPort =
        rightmostClientKey addresses trusted peerIp hops.reverse := by
  unfold oidcClientKey
  dsimp only
  rw [if_neg hpeer, hip]
  split
  · exact .inl rfl
  · split
    · exact .inl rfl
    · dsimp only
      generalize hhops : (if peerPort.getD 0 ≠ 0 ∧ trusted peerIp = true then
        withoutSelfHops addresses (hopsOf forwardedFor) peerIp else hopsOf forwardedFor) = hops
      split
      · exact .inl rfl
      · cases htrusted : trusted peerIp with
        | false => exact .inr (.inl ⟨rfl, rfl⟩)
        | true =>
          refine .inr (.inr ⟨rfl, hops, ?_, rfl⟩)
          rw [← hhops]
          split
          · exact .inr rfl
          · exact .inl rfl

/-- The last hop is not the peer itself, so none is dropped. -/
theorem withoutSelfHops_eq {hops : List String} {last : String} {peerIp : IP}
    (hlast : ip addresses last ≠ some peerIp) :
    withoutSelfHops addresses (hops ++ [last]) peerIp = hops ++ [last] := by
  unfold withoutSelfHops
  dsimp only
  rw [List.rdropWhile_concat_neg _ _ _ (by simpa using hlast), ite_self]

/-- Whatever a host puts into its headers, its starts are counted for it or for nobody. -/
theorem oidcClientKey_comesFrom {host : IP} {r : Start}
    (h : ComesFrom addresses trusted host r) :
    oidcClientKey addresses trusted r.peer r.forwardedFor r.peerPort = addresses.key host ∨
    oidcClientKey addresses trusted r.peer r.forwardedFor r.peerPort = oidcRewrittenClient := by
  cases h with
  | direct forwardedFor peerPort hpeer hip hhost =>
    rcases oidcClientKey_cases hpeer hip forwardedFor peerPort with
      hrewritten | ⟨-, hkey⟩ | ⟨htrusted, -⟩
    · exact .inr hrewritten
    · exact .inl hkey
    · rw [hhost] at htrusted
      cases htrusted
  | proxied sent proxies peerPort hpeer hip htrusted haddr hhost hproxies =>
    rename_i peer addr peerIp
    have hnames : ∀ a ∈ addr :: proxies, ∃ x, Names addresses a x ∧ x ≠ peerIp := by
      intro a ha
      rcases List.mem_cons.mp ha with rfl | ha
      · refine ⟨host, haddr, fun heq => ?_⟩
        rw [heq, htrusted] at hhost
        cases hhost
      · obtain ⟨x, hx, -, hne⟩ := hproxies a ha
        exact ⟨x, hx, hne⟩
    have hhops : hopsOf ((addr :: proxies).foldl forwardBy sent) =
        hopsOf sent ++ (addr :: proxies) :=
      hopsOf_forwarded (fun a ha => (hnames a ha).imp fun x hx => hx.1) sent
    have hkept : withoutSelfHops addresses (hopsOf sent ++ (addr :: proxies)) peerIp =
        hopsOf sent ++ (addr :: proxies) := by
      obtain ⟨rest, last, hsplit⟩ := List.eq_nil_or_concat' (addr :: proxies) |>.resolve_left
        (List.cons_ne_nil _ _)
      obtain ⟨x, hx, hne⟩ := hnames last (by rw [hsplit]; exact List.mem_append_right _ (by simp))
      rw [hsplit, ← List.append_assoc]
      apply withoutSelfHops_eq
      rw [hx.parses]
      exact fun heq => hne (Option.some.inj heq)
    rcases oidcClientKey_cases hpeer hip ((addr :: proxies).foldl forwardBy sent) peerPort with
      hrewritten | ⟨huntrusted, -⟩ | ⟨-, hops, hwalk, hkey⟩
    · exact .inr hrewritten
    · rw [htrusted] at huntrusted
      cases huntrusted
    · rw [hhops, hkept, or_self] at hwalk
      have hreverse : hops.reverse = proxies.reverse ++ addr :: (hopsOf sent).reverse := by
        rw [hwalk]
        simp
      rw [hreverse] at hkey
      left
      calc oidcClientKey addresses trusted (some peer) _ peerPort
          = rightmostClientKey addresses trusted peerIp
              (proxies.reverse ++ addr :: (hopsOf sent).reverse) := hkey
        _ = addresses.key host := rightmostClientKey_proxies haddr hhost
            (fun proxy hproxy => (hproxies proxy hproxy).imp fun x hx => ⟨hx.1, hx.2.1⟩) _

/-! ### A host behind a proxy, and one that floods -/

def demoAddresses : Addresses String where
  parse s := if s ∈ ["10.0.0.2", "198.51.100.7", "203.0.113.9"] then some s else none
  key addr := addr

def demoTrusted (addr : String) : Bool := addr = "10.0.0.2"

/-- It has put another host's address into its header. -/
def forgedStart : Start :=
  ⟨some "10.0.0.2", forwardBy ["203.0.113.9"] "198.51.100.7", some 443⟩

def directStart : Start := ⟨some "203.0.113.9", ["10.0.0.2"], none⟩

theorem directStart_comesFrom : ComesFrom demoAddresses demoTrusted "203.0.113.9" directStart :=
  .direct _ none (by decide) (by decide +kernel) (by decide)

/-! ### The pending starts of a run -/

/-- What a step does to the pending starts. -/
def opsOf (addresses : Addresses IP) (trusted : IP → Bool) : Label U → List (Op String OidcPending)
  | .login request now created state verifier nonce redirectUri =>
    [.remove fun _ pending => pending.expired now,
      .enter state (pendingOf addresses trusted request created verifier nonce redirectUri)]
  | .callback now state =>
    [.remove fun _ pending => pending.expired now, .remove fun k _ => k = state]
  | .exchange .. => []
  | .issue .. => []

theorem claimJti_oidc {jti : String} {s s' : SessionStore} (h : claimJti jti s = .ok s') :
    s'.oidc = s.oidc ∧ s'.jti = jti :: s.jti ∧ jti ∉ s.jti := by
  unfold claimJti at h
  split at h
  · cases h
  · split at h
    · cases h
    · rename_i hnew
      cases h
      exact ⟨rfl, rfl, hnew⟩

theorem checkIdToken_ok {token : IdToken} {nonce : String} {s s' : SessionStore}
    (h : checkIdToken token nonce s = .ok s') :
    token.nonce = some nonce ∧ ∃ jti, token.jti = some jti ∧ claimJti jti s = .ok s' := by
  unfold checkIdToken at h
  split at h
  · cases h
  · rename_i hnonce
    split at h
    · cases h
    · rename_i jti hjti
      exact ⟨not_not.mp hnonce, jti, hjti, h⟩

/-- How an exchange ends: with a session, for a token under the nonce of the start, or refused. -/
theorem oidcExchangeCode_cases (x : Exchange) (answer : Answer U) (s : SessionStore) :
    (oidcExchangeCode x answer s).1.oidc = s.oidc ∧
    ((∃ e, (oidcExchangeCode x answer s).2 = .error e) ∧
        ((oidcExchangeCode x answer s).1.jti = s.jti ∨
          ∃ jti, (oidcExchangeCode x answer s).1.jti = jti :: s.jti) ∨
      ∃ token user jti, token.nonce = some x.pending.nonce ∧ token.jti = some jti ∧ jti ∉ s.jti ∧
        (oidcExchangeCode x answer s).1.jti = jti :: s.jti ∧
        (oidcExchangeCode x answer s).2 = .ok { x with token, user }) := by
  unfold oidcExchangeCode
  cases answer with
  | none => exact ⟨rfl, .inl ⟨⟨_, rfl⟩, .inl rfl⟩⟩
  | some answer =>
    obtain ⟨token, user⟩ := answer
    dsimp only
    cases hcheck : checkIdToken token x.pending.nonce s with
    | error e => exact ⟨rfl, .inl ⟨⟨e, rfl⟩, .inl rfl⟩⟩
    | ok s' =>
      obtain ⟨hnonce, jti, hjti, hclaim⟩ := checkIdToken_ok hcheck
      obtain ⟨hoidc, hspent, hnew⟩ := claimJti_oidc hclaim
      refine ⟨hoidc, ?_⟩
      cases user with
      | none => exact .inl ⟨⟨_, rfl⟩, .inr ⟨jti, hspent⟩⟩
      | some user => exact .inr ⟨token, user, jti, hnonce, hjti, hnew, hspent, rfl⟩

theorem loginStep_oidc {c c' : Console U} {l : Label U}
    (h : loginStep addresses trusted c l = some c') :
    c'.store.oidc =
      applyAll OidcPending.clientKey oidcLimits c.store.oidc (opsOf addresses trusted l) := by
  cases l with
  | login request now created state verifier nonce redirectUri =>
    cases h
    rfl
  | callback now state =>
    cases h
    rfl
  | exchange i answer =>
    obtain ⟨x, -, rfl⟩ := Option.map_eq_some_iff.mp h
    exact (oidcExchangeCode_cases x answer c.store).1
  | issue i =>
    obtain ⟨x, -, rfl⟩ := Option.map_eq_some_iff.mp h
    rfl

theorem run_oidc {c c' : Console U} {ls : List (Label U)}
    (hrun : (loginSystem addresses trusted U).run c ls = some c') :
    c'.store.oidc = applyAll OidcPending.clientKey oidcLimits c.store.oidc
      (ls.flatMap (opsOf addresses trusted)) := by
  induction ls generalizing c with
  | nil =>
    cases hrun
    rfl
  | cons l ls ih =>
    obtain ⟨d, hd, hrest⟩ := System.run_cons.mp hrun
    rw [ih hrest, loginStep_oidc hd, List.flatMap_cons, applyAll, applyAll, applyAll,
      List.foldl_append]

/-- However many starts there are, from wherever, a client has 16 pending ones at most, and all have
1024. -/
theorem pending_bounded {c : Console U} {ls : List (Label U)}
    (hrun : (loginSystem addresses trusted U).run {} ls = some c) :
    (∀ client, (c.store.oidc.rows.filter fun row => row.2.clientKey = client).length ≤ 16) ∧
      c.store.oidc.rows.length ≤ 1024 := by
  have hcap : Capped OidcPending.clientKey oidcLimits c.store.oidc := by
    rw [run_oidc hrun]
    exact capped_empty.applyAll _
  refine ⟨fun client => ?_, hcap.total⟩
  have hown := hcap.own client
  unfold keysOf at hown
  rwa [List.length_map] at hown

/-- More starts than a client may have pending. -/
def floodStarts : List (Label String) :=
  (List.range 20).map fun i =>
    .login directStart 1 1 (String.ofList (List.replicate i 'a')) "v" "n" "/callback"

theorem pending_bounded_flood :
    ∃ c, (loginSystem demoAddresses demoTrusted String).run {} floodStarts = some c ∧
      c.store.oidc.rows.length = 16 ∧
      (c.store.oidc.rows.filter fun row => row.2.clientKey = "203.0.113.9").length ≤ 16 := by
  have hrun : ((loginSystem demoAddresses demoTrusted String).run {} floodStarts).map
      (fun c => c.store.oidc.rows.length) = some 16 := by decide +kernel
  obtain ⟨c, hc, hlength⟩ := Option.map_eq_some_iff.mp hrun
  exact ⟨c, hc, hlength, (pending_bounded hc).1 _⟩

/-- A start of the victim's client. -/
def Label.ownStart (addresses : Addresses IP) (trusted : IP → Bool) (client : String) :
    Label U → Bool
  | .login request .. =>
    oidcClientKey addresses trusted request.peer request.forwardedFor request.peerPort = client
  | .callback .. | .exchange .. | .issue .. => false

/-- A step that may happen beside a login, in its time: of a callback for another start, or a start
with another state, of one of the hosts or of the login's own client. -/
inductive Beside (addresses : Addresses IP) (trusted : IP → Bool) (hosts : List IP)
    (state client : String) (deadline : ℚ) : Label U → Prop
  | login (request : Start) {now : ℚ} (created : ℚ) {state' : String}
    (verifier nonce redirectUri : String) (hnow : now ≤ deadline) (hstate : state' ≠ state)
    (hclient : (∃ host ∈ hosts, ComesFrom addresses trusted host request) ∨
      oidcClientKey addresses trusted request.peer request.forwardedFor request.peerPort = client) :
    Beside addresses trusted hosts state client deadline
      (.login request now created state' verifier nonce redirectUri)
  | callback {now : ℚ} {state' : String} (hnow : now ≤ deadline) (hstate : state' ≠ state) :
    Beside addresses trusted hosts state client deadline (.callback now state')
  | exchange (i : ℕ) (answer : Answer U) :
    Beside addresses trusted hosts state client deadline (.exchange i answer)
  | issue (i : ℕ) : Beside addresses trusted hosts state client deadline (.issue i)

omit [DecidableEq IP] in
theorem not_expired {pending : OidcPending} {now : ℚ} (h : now ≤ pending.createdAt + 600) :
    pending.expired now = false := by
  apply decide_eq_false
  linarith

/-- The clients that the starts of some hosts are counted for. -/
def clientsOf (addresses : Addresses IP) (hosts : List IP) : List String :=
  oidcRewrittenClient :: hosts.map addresses.key

/-- What is done beside a login adds for few clients, and takes out nothing of it. -/
theorem Beside.ops {hosts : List IP} {state : String} {pending : OidcPending} {l : Label U}
    (h : Beside addresses trusted hosts state pending.clientKey (pending.createdAt + 600) l) :
    (∀ k v, .enter k v ∈ opsOf addresses trusted l →
      k ≠ state ∧ (v.clientKey = pending.clientKey ∨ v.clientKey ∈ clientsOf addresses hosts)) ∧
    ∀ p, .remove p ∈ opsOf addresses trusted l → p state pending = false := by
  cases h with
  | login request created verifier nonce redirectUri hnow hstate hclient =>
    constructor
    · intro k v hmem
      simp only [opsOf, List.mem_cons, reduceCtorEq, List.not_mem_nil, or_false, false_or,
        Op.enter.injEq] at hmem
      obtain ⟨rfl, rfl⟩ := hmem
      refine ⟨hstate, ?_⟩
      rcases hclient with ⟨host, hhost, hfrom⟩ | hown
      · right
        rcases oidcClientKey_comesFrom hfrom with hkey | hnobody
        · exact List.mem_cons_of_mem _ (List.mem_map.mpr ⟨host, hhost, hkey.symm⟩)
        · exact List.mem_cons.mpr (.inl hnobody)
      · exact .inl hown
    · intro p hmem
      simp only [opsOf, List.mem_cons, reduceCtorEq, List.not_mem_nil, or_false,
        Op.remove.injEq] at hmem
      rw [hmem]
      exact not_expired hnow
  | callback hnow hstate =>
    constructor
    · intro k v hmem
      simp [opsOf] at hmem
    · intro p hmem
      simp only [opsOf, List.mem_cons, List.not_mem_nil, or_false, Op.remove.injEq] at hmem
      rcases hmem with rfl | rfl
      · exact not_expired hnow
      · exact decide_eq_false hstate.symm
  | exchange i answer => simp [opsOf]
  | issue i => simp [opsOf]

theorem addsFor_ownStart (client : String) (ls : List (Label U)) :
    ((ls.flatMap (opsOf addresses trusted)).filter
        fun op => op.addsFor OidcPending.clientKey client).length =
      (ls.filter (Label.ownStart addresses trusted client)).length := by
  induction ls with
  | nil => rfl
  | cons l ls ih =>
    rw [List.flatMap_cons, List.filter_append, List.length_append, ih, List.filter_cons]
    cases l with
    | login request now created state verifier nonce redirectUri =>
      by_cases hkey : oidcClientKey addresses trusted request.peer request.forwardedFor
          request.peerPort = client
      · simp [opsOf, Op.addsFor, Label.ownStart, pendingOf, hkey, Nat.add_comm]
      · simp [opsOf, Op.addsFor, Label.ownStart, pendingOf, hkey]
    | callback now state => simp [opsOf, Op.addsFor, Label.ownStart]
    | exchange i answer => simp [opsOf, Label.ownStart]
    | issue i => simp [opsOf, Label.ownStart]

/-- A login goes through though up to 61 other hosts start as many as they like meanwhile, with
whatever headers: its client starts fewer than 16 itself, and the callback comes in time. -/
theorem login_survives_flood {c₀ c₁ c₂ : Console U} {before between : List (Label U)}
    {hosts : List IP} (hhosts : hosts.length ≤ 61) {request : Start} {now created : ℚ}
    {state verifier nonce redirectUri : String} {pending : OidcPending}
    (hpending : pending = pendingOf addresses trusted request created verifier nonce redirectUri)
    (hbefore : (loginSystem addresses trusted U).run {} before = some c₀)
    (hfresh : c₀.store.oidc.get? state = none)
    (hstart : (loginSystem addresses trusted U).step c₀
      (.login request now created state verifier nonce redirectUri) = some c₁)
    (hbetween : (loginSystem addresses trusted U).run c₁ between = some c₂)
    (hbeside : ∀ l ∈ between,
      Beside addresses trusted hosts state pending.clientKey (created + 600) l)
    (hown : (between.filter (Label.ownStart addresses trusted pending.clientKey)).length < 16)
    {later : ℚ} (hlater : later ≤ created + 600) :
    (takeOidc later state c₂.store).2 = some pending := by
  have hcreated : pending.createdAt = created := by rw [hpending]; rfl
  rw [← hcreated] at hbeside hlater
  -- The start itself: room is made, and its row is the last one.
  have hcap₀ : Capped OidcPending.clientKey oidcLimits c₀.store.oidc := by
    rw [run_oidc hbefore]
    exact capped_empty.applyAll _
  have hc₁ : c₁.store.oidc = enter OidcPending.clientKey oidcLimits state pending
      (purgeOidc now c₀.store.oidc) := by
    rw [← Option.some.inj hstart, hpending]
    rfl
  have hcap₁ : Capped OidcPending.clientKey oidcLimits c₁.store.oidc := by
    rw [hc₁]
    exact (hcap₀.thins (thins_delete _ _)).enter state pending
  have hfollowed : Followed OidcPending.clientKey c₁.store.oidc (state, pending)
      (clientsOf addresses hosts) 0 := by
    rw [hc₁]
    apply followed_enter
    rw [purgeOidc, Table.get?_delete, hfresh]
    rfl
  -- Then what is done beside it.
  have hfew : oidcLimits.perOwner * ((clientsOf addresses hosts).length + 1) <
      oidcLimits.total := by
    show 16 * ((oidcRewrittenClient :: hosts.map addresses.key).length + 1) < 1024
    rw [List.length_cons, List.length_map]
    omega
  have hkept : c₂.store.oidc.get? state = some pending := by
    rw [run_oidc hbetween]
    refine survives hcap₁ hfew ?_ ?_ hfollowed ?_
    · intro k v hmem
      obtain ⟨l, hl, hop⟩ := List.mem_flatMap.mp hmem
      exact (hbeside l hl).ops.1 k v hop
    · intro p hmem
      obtain ⟨l, hl, hop⟩ := List.mem_flatMap.mp hmem
      exact (hbeside l hl).ops.2 p hop
    · rw [addsFor_ownStart, Nat.zero_add]
      exact hown
  show (purgeOidc later c₂.store.oidc).get? state = some pending
  apply Table.get?_eq_some.mpr
  apply List.mem_filter.mpr
  refine ⟨Table.get?_eq_some.mp hkept, ?_⟩
  show (!pending.expired later) = true
  rw [not_expired hlater]
  rfl

theorem floodStarts_beside (client : String) :
    ∀ l ∈ floodStarts, Beside demoAddresses demoTrusted ["203.0.113.9"] "state" client
      (0 + 600) l := by
  intro l hl
  obtain ⟨i, -, rfl⟩ := List.mem_map.mp hl
  apply Beside.login _ _ _ _ _ (by norm_num)
  · intro heq
    have hall : ∀ c ∈ "state".toList, c = 'a' := by
      rw [← heq, String.toList_ofList]
      exact fun c hc => (List.mem_replicate.mp hc).2
    exact absurd (hall 's' (by decide)) (by decide)
  · exact .inl ⟨_, List.mem_cons_self, directStart_comesFrom⟩

theorem login_survives_flood_forged :
    ∃ c₁ c₂ pending,
      pending = pendingOf demoAddresses demoTrusted forgedStart 0 "v" "n" "/callback" ∧
      (loginSystem demoAddresses demoTrusted String).step {}
        (.login forgedStart 0 0 "state" "v" "n" "/callback") = some c₁ ∧
      (loginSystem demoAddresses demoTrusted String).run c₁ floodStarts = some c₂ ∧
      (takeOidc 600 "state" c₂.store).2 = some pending := by
  have hrun : (((loginSystem demoAddresses demoTrusted String).step {}
      (.login forgedStart 0 0 "state" "v" "n" "/callback")).bind fun c =>
        (loginSystem demoAddresses demoTrusted String).run c floodStarts).isSome = true := by
    decide +kernel
  obtain ⟨c₂, hboth⟩ := Option.isSome_iff_exists.mp hrun
  obtain ⟨c₁, hc₁, hc₂⟩ := Option.bind_eq_some_iff.mp hboth
  have hown : (floodStarts.filter (Label.ownStart demoAddresses demoTrusted
      (pendingOf demoAddresses demoTrusted forgedStart 0 "v" "n" "/callback").clientKey)).length <
      16 := by decide +kernel
  have hfirst : (loginSystem demoAddresses demoTrusted String).run {} [] = some {} := rfl
  exact ⟨c₁, c₂, _, rfl, hc₁, hc₂, login_survives_flood (by decide) rfl hfirst rfl hc₁ hc₂
    (floodStarts_beside _) hown (by norm_num)⟩

/-! ### What sessions are issued for -/

/-- What is seen of a run: the starts, and the sessions. -/
structure Logins (U : Type*) where
  starts : List (String × OidcPending) := []
  sessions : List (Session U) := []

def seeLogins (addresses : Addresses IP) (trusted : IP → Bool) (c : Console U) (l : Label U)
    (_ : Console U) (seen : Logins U) : Logins U :=
  match l with
  | .login request _ created state verifier nonce redirectUri =>
    { seen with
      starts := (state, pendingOf addresses trusted request created verifier nonce redirectUri) ::
        seen.starts }
  | .issue i => { seen with sessions := c.granted[i]?.toList ++ seen.sessions }
  | .callback .. | .exchange .. => seen

/-- The callback is for a start that was begun, and came in its time. -/
def InTime (seen : Logins U) (x : Exchange) : Prop :=
  (x.state, x.pending) ∈ seen.starts ∧ x.now ≤ x.pending.createdAt + 600

/-- What has come of the callbacks: the sessions, and those that are granted and not issued yet. -/
def allGranted (c : Console U) (seen : Logins U) : List (Session U) := c.granted ++ seen.sessions

/-- A start is pending, under way or in a session, and a token is in one session. -/
structure SingleUse (c : Console U) (seen : Logins U) : Prop where
  started : ∀ row ∈ c.store.oidc.rows, row ∈ seen.starts
  counted : ∀ state, ((allGranted c seen).countP fun x => x.state = state) +
    (c.exchanging.countP fun x => x.state = state) +
    c.store.oidc.count (fun k _ => k = state) ≤ seen.starts.countP fun start => start.1 = state
  taken : ∀ x ∈ c.exchanging, InTime seen x
  backed : ∀ x ∈ allGranted c seen,
    InTime seen x.toExchange ∧ x.token.nonce = some x.pending.nonce
  spent : ∀ x ∈ allGranted c seen, ∃ jti ∈ c.store.jti, x.token.jti = some jti
  distinct : ((allGranted c seen).map fun x => x.token.jti).Nodup

theorem perm_eraseIdx {α : Type*} {xs : List α} {i : ℕ} {x : α} (h : xs[i]? = some x) :
    (x :: xs.eraseIdx i).Perm xs := by
  obtain ⟨hi, rfl⟩ := List.getElem?_eq_some_iff.mp h
  exact List.getElem_cons_eraseIdx_perm hi

theorem SingleUse.login {c : Console U} {seen : Logins U} (h : SingleUse c seen) (now : ℚ)
    (state : String) (pending : OidcPending) :
    SingleUse { c with store := beginOidc now state pending c.store }
      { seen with starts := (state, pending) :: seen.starts } := by
  have hthins := (thins_delete c.store.oidc fun _ pending => pending.expired now).trans
    (thins_makeRoom OidcPending.clientKey oidcLimits pending.clientKey _)
  have hbefore : ∀ x, InTime seen x →
      InTime { seen with starts := (state, pending) :: seen.starts } x :=
    fun x hx => hx.imp_left (List.mem_cons_of_mem _)
  refine ⟨?_, ?_, fun x hx => hbefore x (h.taken x hx),
    fun x hx => (h.backed x hx).imp_left (hbefore _), h.spent, h.distinct⟩
  · intro row hrow
    rcases mem_enter hrow with rfl | hold
    · exact List.mem_cons_self
    · exact List.mem_cons_of_mem _ (h.started row (hthins.sublist.subset hold))
  · intro state'
    have hadd := count_enter OidcPending.clientKey oidcLimits (purgeOidc now c.store.oidc) state
      pending fun k _ => k = state'
    have hold : (purgeOidc now c.store.oidc).count (fun k _ => k = state') ≤
        c.store.oidc.count fun k _ => k = state' := count_thins (thins_delete _ _) _
    have hcounted := h.counted state'
    calc ((allGranted c seen).countP fun x => x.state = state') +
          (c.exchanging.countP fun x => x.state = state') +
          (enter OidcPending.clientKey oidcLimits state pending
            (purgeOidc now c.store.oidc)).count (fun k _ => k = state')
        ≤ (seen.starts.countP fun start => start.1 = state') +
            if decide (state = state') = true then 1 else 0 := by omega
      _ = ((state, pending) :: seen.starts).countP fun start => start.1 = state' :=
        by rw [List.countP_cons]

theorem count_take (t : Table String OidcPending) (state : String) :
    ((t.delete fun k _ => k = state).count fun k _ => k = state) = 0 := by
  apply List.countP_eq_zero.mpr
  intro row hrow
  simpa using (List.mem_filter.mp hrow).2

/-- A start that is taken is not pending any more. -/
theorem SingleUse.callback {c : Console U} {seen : Logins U} (h : SingleUse c seen) (now : ℚ)
    (state : String) : SingleUse (oidcCallback now state c) seen := by
  have hthins : Thins c.store.oidc (oidcCallback now state c).store.oidc :=
    (thins_delete _ _).trans (thins_delete _ _)
  have hstarted : ∀ row ∈ (oidcCallback now state c).store.oidc.rows, row ∈ seen.starts :=
    fun row hrow => h.started row (hthins.sublist.subset hrow)
  have hless (state' : String) := count_thins hthins fun k _ => decide (k = state')
  cases hget : (purgeOidc now c.store.oidc).get? state with
  | none =>
    have hsame : (oidcCallback now state c).exchanging = c.exchanging := by
      simp [oidcCallback, takeOidc, hget]
    refine ⟨hstarted, fun state' => ?_, ?_, h.backed, h.spent, h.distinct⟩
    · have hcounted := h.counted state'
      rw [hsame]
      exact (Nat.add_le_add_left (hless state') _).trans hcounted
    · rw [hsame]
      exact h.taken
  | some pending =>
    have hadd : (oidcCallback now state c).exchanging = ⟨state, pending, now⟩ :: c.exchanging := by
      simp [oidcCallback, takeOidc, hget]
    obtain ⟨hrow, hlive⟩ := List.mem_filter.mp (Table.get?_eq_some.mp hget)
    refine ⟨hstarted, fun state' => ?_, ?_, h.backed, h.spent, h.distinct⟩
    · have hcounted := h.counted state'
      rw [hadd, List.countP_cons]
      by_cases hs : state = state'
      · have hgone : ((oidcCallback now state c).store.oidc.count fun k _ => k = state') = 0 := by
          rw [← hs]
          exact count_take _ _
        have hthere : 0 < c.store.oidc.count fun k _ => k = state' :=
          List.countP_pos_iff.mpr ⟨_, hrow, by simpa using hs⟩
        have hsessions : allGranted (oidcCallback now state c) seen = allGranted c seen := rfl
        rw [hsessions, hgone, if_pos (by simpa using hs)]
        omega
      · rw [if_neg (by simpa using hs)]
        exact (Nat.add_le_add_left (hless state') _).trans hcounted
    · intro x hx
      rw [hadd] at hx
      rcases List.mem_cons.mp hx with rfl | hx
      · refine ⟨h.started _ hrow, ?_⟩
        simp only [OidcPending.expired, Bool.not_eq_true', decide_eq_false_iff_not,
          not_lt] at hlive
        linarith
      · exact h.taken x hx

/-- The console behind an exchange. -/
def afterExchange (c : Console U) (i : ℕ) (x : Exchange) (answer : Answer U) : Console U :=
  { store := (oidcExchangeCode x answer c.store).1
    exchanging := c.exchanging.eraseIdx i
    granted := (oidcExchangeCode x answer c.store).2.toOption.toList ++ c.granted }

theorem countP_exchanging {c : Console U} {i : ℕ} {x : Exchange}
    (hx : c.exchanging[i]? = some x) (state : String) :
    (c.exchanging.countP fun y => y.state = state) =
      ((c.exchanging.eraseIdx i).countP fun y => y.state = state) +
        if decide (x.state = state) = true then 1 else 0 := by
  rw [← (perm_eraseIdx hx).countP_eq, List.countP_cons]

/-- An exchange ends a callback, and spends a token that was not seen. -/
theorem SingleUse.exchange {c : Console U} {seen : Logins U} (h : SingleUse c seen) {i : ℕ}
    {x : Exchange} (hx : c.exchanging[i]? = some x) (answer : Answer U) :
    SingleUse (afterExchange c i x answer) seen := by
  have hperm := perm_eraseIdx hx
  have htaken : ∀ y ∈ c.exchanging.eraseIdx i, InTime seen y :=
    fun y hy => h.taken y (hperm.subset (List.mem_cons_of_mem _ hy))
  have hcounted (state : String) := countP_exchanging hx state ▸ h.counted state
  obtain ⟨hoidc, ⟨⟨e, hrefused⟩, hjtis⟩ | ⟨token, user, jti, hnonce, hjti, hnew, hjtis, hok⟩⟩ :=
    oidcExchangeCode_cases x answer c.store
  · have hkept : ∀ jti ∈ c.store.jti, jti ∈ (oidcExchangeCode x answer c.store).1.jti := by
      intro jti hold
      rcases hjtis with hsame | ⟨jti', hspent⟩
      · rw [hsame]
        exact hold
      · rw [hspent]
        exact List.mem_cons_of_mem _ hold
    have hsame : allGranted (afterExchange c i x answer) seen = allGranted c seen := by
      unfold allGranted afterExchange
      rw [hrefused]
      rfl
    refine ⟨?_, fun state => ?_, htaken, ?_, ?_, ?_⟩
    · exact fun row hrow => h.started row (hoidc ▸ hrow)
    · rw [hsame]
      show _ + ((c.exchanging.eraseIdx i).countP fun y => y.state = state) +
        (oidcExchangeCode x answer c.store).1.oidc.count _ ≤ _
      rw [hoidc]
      exact le_trans (by omega) (hcounted state)
    · rw [hsame]
      exact h.backed
    · rw [hsame]
      intro y hy
      obtain ⟨jti, hold, hy⟩ := h.spent y hy
      exact ⟨jti, hkept jti hold, hy⟩
    · rw [hsame]
      exact h.distinct
  · have hadd : allGranted (afterExchange c i x answer) seen =
        { x with token, user } :: allGranted c seen := by
      unfold allGranted afterExchange
      rw [hok]
      rfl
    refine ⟨?_, fun state => ?_, htaken, ?_, ?_, ?_⟩
    · exact fun row hrow => h.started row (hoidc ▸ hrow)
    · rw [hadd, List.countP_cons]
      show _ + _ + ((c.exchanging.eraseIdx i).countP fun y => y.state = state) +
        (oidcExchangeCode x answer c.store).1.oidc.count _ ≤ _
      rw [hoidc]
      exact le_trans (by dsimp only; omega) (hcounted state)
    · rw [hadd]
      intro y hy
      rcases List.mem_cons.mp hy with rfl | hold
      · exact ⟨h.taken x (hperm.subset List.mem_cons_self), hnonce⟩
      · exact h.backed y hold
    · rw [hadd]
      intro y hy
      show ∃ jti ∈ (oidcExchangeCode x answer c.store).1.jti, _
      rw [hjtis]
      rcases List.mem_cons.mp hy with rfl | hold
      · exact ⟨jti, List.mem_cons_self, hjti⟩
      · obtain ⟨jti', hspent, hy⟩ := h.spent y hold
        exact ⟨jti', List.mem_cons_of_mem _ hspent, hy⟩
    · rw [hadd, List.map_cons, List.nodup_cons]
      refine ⟨fun hsame => ?_, h.distinct⟩
      obtain ⟨y, hy, heq⟩ := List.mem_map.mp hsame
      obtain ⟨jti', hspent, hy'⟩ := h.spent y hy
      rw [hy'] at heq
      exact hnew (Option.some.inj (heq.trans hjti) ▸ hspent)

/-- A session that is issued was granted before. -/
theorem SingleUse.issue {c : Console U} {seen : Logins U} (h : SingleUse c seen) {i : ℕ}
    {x : Session U} (hx : c.granted[i]? = some x) :
    SingleUse { c with granted := c.granted.eraseIdx i }
      { seen with sessions := x :: seen.sessions } := by
  have hperm : (allGranted { c with granted := c.granted.eraseIdx i }
      { seen with sessions := x :: seen.sessions }).Perm (allGranted c seen) :=
    List.perm_middle.trans ((perm_eraseIdx hx).append_right _)
  refine ⟨h.started, fun state => ?_, h.taken, fun y hy => h.backed y (hperm.subset hy),
    fun y hy => h.spent y (hperm.subset hy), (hperm.map _).nodup_iff.mpr h.distinct⟩
  rw [hperm.countP_eq]
  exact h.counted state

/-- Over any history, every session is for a start of its own, whose callback came in the 600
seconds behind it, and for a token under that start's nonce; and no two are for one token. -/
theorem sessions_once {c : Console U} {seen : Logins U} {ls : List (Label U)}
    (hrun : ((loginSystem addresses trusted U).monitor (seeLogins addresses trusted)).run ({}, {})
      ls = some (c, seen)) :
    (∀ x ∈ seen.sessions, (x.state, x.pending) ∈ seen.starts ∧
      x.now ≤ x.pending.createdAt + 600 ∧ x.token.nonce = some x.pending.nonce) ∧
    (∀ state, (seen.sessions.countP fun x => x.state = state) ≤
      seen.starts.countP fun start => start.1 = state) ∧
    (seen.sessions.map fun x => x.token.jti).Nodup := by
  have hI : SingleUse c seen := by
    apply System.run_invariant (T := (loginSystem addresses trusted U).monitor _)
      (I := fun m => SingleUse m.1 m.2) _ _ hrun
    · intro m l m' hm hstep
      obtain ⟨hlogin, hseen⟩ := System.monitor_step.mp hstep
      rw [hseen]
      cases l with
      | login request now created state verifier nonce redirectUri =>
        rw [← Option.some.inj hlogin]
        exact hm.login now state _
      | callback now state =>
        rw [← Option.some.inj hlogin]
        exact hm.callback now state
      | exchange i answer =>
        obtain ⟨x, hx, hafter⟩ := Option.map_eq_some_iff.mp hlogin
        rw [← hafter]
        exact hm.exchange hx answer
      | issue i =>
        obtain ⟨x, hx, hafter⟩ := Option.map_eq_some_iff.mp hlogin
        rw [← hafter]
        simp only [seeLogins, hx, Option.toList_some, List.singleton_append]
        exact hm.issue hx
    · exact ⟨by simp [Table.empty], by simp [Table.count, Table.empty, allGranted], by simp,
        by simp [allGranted], by simp [allGranted], by simp [allGranted]⟩
  have hsub : seen.sessions.Sublist (allGranted c seen) := List.sublist_append_right _ _
  refine ⟨fun x hx => ?_, fun state => ?_, (hsub.map _).nodup hI.distinct⟩
  · obtain ⟨⟨hstart, htime⟩, hnonce⟩ := hI.backed x (hsub.subset hx)
    exact ⟨hstart, htime, hnonce⟩
  · have hcounted := hI.counted state
    have hless := hsub.countP_le (p := fun x => decide (x.state = state))
    omega

/-- Two callbacks ask the provider at a time. The second callback for the start, and the second with
the token, are refused. -/
def twiceLogin : List (Label String) :=
  [.login forgedStart 0 0 "s1" "v1" "n1" "/callback",
    .login forgedStart 1 1 "s2" "v2" "n2" "/callback",
    .callback 9 "s1", .callback 9 "s2", .callback 9 "s1",
    .exchange 1 (some (⟨some "n1", some "jti-1"⟩, some "ann")),
    .exchange 0 (some (⟨some "n2", some "jti-1"⟩, some "eve")),
    .issue 0]

theorem sessions_once_twice :
    ∃ c seen, ((loginSystem demoAddresses demoTrusted String).monitor
        (seeLogins demoAddresses demoTrusted)).run ({}, {}) twiceLogin = some (c, seen) ∧
      (seen.sessions.map fun x => (x.state, x.user, x.pending.verifier)) = [("s1", "ann", "v1")] ∧
      (seen.sessions.countP fun x => x.state = "s1") ≤
        (seen.starts.countP fun start => start.1 = "s1") := by
  have hrun : (((loginSystem demoAddresses demoTrusted String).monitor
      (seeLogins demoAddresses demoTrusted)).run ({}, {}) twiceLogin).map
      (fun m => m.2.sessions.map fun x => (x.state, x.user, x.pending.verifier)) =
      some [("s1", "ann", "v1")] := by decide +kernel
  obtain ⟨⟨c, seen⟩, hm, hsessions⟩ := Option.map_eq_some_iff.mp hrun
  exact ⟨c, seen, hm, hsessions, (sessions_once hm).2.1 "s1"⟩

end Recertia.Auth
