import Nodeglow.Backend.NetSafety.Addresses

/-!
# The guarded client

The client's network backend is wrapped: a new connection is opened by resolving the name of the
host, checking every address of the answer, and asking the wrapped backend for the addresses, one
after the other, until one connects. So a name whose answer changes between two lookups, or a
redirect, reaches no address that was not checked.

The network is arbitrary in each attempt to connect: what the name resolves to, and what comes of
connecting to an address. A request follows a chain of hosts, with any number of new connections to
each; all of them are opened by the backend of the client's pool.

## Main results

* `asked_tryAddresses` — the addresses asked for, and why the next one is.
* `checked_connectTcp` — the guarded backend only opens checked connections.
* `safeAsyncClient_checked` — so does every chain of requests of the client.

Source: `backend/utils/net_safety.py`, lines 185–292.
-/

namespace Nodeglow.NetSafety

/-! ### The network -/

/-- What comes of connecting: `failed` is a `ConnectError`, a `ConnectTimeout` or an `OSError`,
`raised` any other exception. -/
inductive Dial
  | connected
  | failed (error : String)
  | raised (error : String)

/-- The network in one attempt to connect. -/
structure Network where
  lookup : String → Except String (List String)
  dial : String → Dial

/-- One attempt to connect: what the innermost backend was asked for, and the result. -/
structure Attempt where
  asked : List String
  result : Dial

/-- `AsyncNetworkBackend`. -/
structure NetworkBackend where
  connectTcp : Network → String → ℕ → Attempt
  connectUnixSocket : Network → String → Attempt

/-- The backend of the pool before it is wrapped. -/
def plainBackend : NetworkBackend where
  connectTcp net host _ := ⟨[host], net.dial host⟩
  connectUnixSocket net path := ⟨[path], net.dial path⟩

/-! ### The guarded backend -/

/-- The host without white space and brackets around it. -/
def bareName (host : String) : String :=
  Text.trimMatches isBracket (Text.strip host)

/-- The addresses of the host: a literal, or what its name resolves to. -/
def addresses (ip : IpText) (net : Network) (host : String) : Except String (List Ip) :=
  match parseIp ip (bareName host) with
  | some literal => .ok [literal]
  | none =>
    match net.lookup (bareName host) with
    | .error exc => .error ("Could not resolve " ++ host ++ ": " ++ exc)
    | .ok infos => .ok (infos.filterMap (parseIp ip)).eraseDups

/-- `_checked_addresses`. -/
def checkedAddresses (ip : IpText) (py : Text.Lower) (net : Network) (host : String) :
    Except String (List Ip) :=
  match blockedNameReason py (bareName host) with
  | some reason => .error ("Blocked outbound connection to " ++ host ++ ": " ++ reason)
  | none =>
    match addresses ip net host with
    | .error error => .error error
    | .ok addrs =>
      match addrs.findSome? fun addr => (blockedIpReason addr).map (addr, ·) with
      | some (addr, reason) =>
        .error ("Blocked outbound connection to " ++ host ++ " (" ++ ip.str addr ++ "): " ++ reason)
      | none => .ok addrs

/-- The loop of `connect_tcp` over the checked addresses, with what is raised after the last. -/
def tryAddresses (connect : Ip → Attempt) : List Ip → Dial → Attempt
  | [], last => ⟨[], last⟩
  | addr :: rest, _ =>
    let attempt := connect addr
    match attempt.result with
    | .failed exc =>
      let next := tryAddresses connect rest (.failed exc)
      ⟨attempt.asked ++ next.asked, next.result⟩
    | _ => attempt

/-- `_GuardedBackend`. -/
def guardedBackend (ip : IpText) (py : Text.Lower) (inner : NetworkBackend) : NetworkBackend where
  connectTcp net host port :=
    match checkedAddresses ip py net host with
    | .error error => ⟨[], .failed error⟩
    | .ok addrs =>
      tryAddresses (fun addr => inner.connectTcp net (ip.str addr) port) addrs
        (.failed ("Could not resolve " ++ host))
  connectUnixSocket _ _ :=
    ⟨[], .failed "Unix sockets are not allowed for outbound requests"⟩

/-! ### The client -/

/-- A connection pool; the attribute may be missing in another version of the library. -/
structure Pool where
  networkBackend : Option NetworkBackend

/-- `GuardedAsyncTransport.__init__`, which wraps the backend of the new pool. -/
def guardedAsyncTransport (ip : IpText) (py : Text.Lower) (pool : Pool) : Except String Pool :=
  match pool.networkBackend with
  | none => .error "httpcore pool has no _network_backend; SSRF guard unavailable"
  | some inner => .ok { networkBackend := some (guardedBackend ip py inner) }

/-- The arguments of `safe_async_client` that matter here. -/
structure ClientArgs where
  transport : Bool
  followRedirects : Option Bool

/-- `httpx.AsyncClient` with an explicit transport. -/
structure Client where
  pool : Pool
  followRedirects : Bool

/-- `safe_async_client`. -/
def safeAsyncClient (ip : IpText) (py : Text.Lower) (pool : Pool) (args : ClientArgs) :
    Except String Client :=
  if args.transport then .error "safe_async_client builds its own transport"
  else
    match guardedAsyncTransport ip py pool with
    | .error error => .error error
    | .ok pool => .ok { pool := pool, followRedirects := args.followRedirects.getD false }

/-- A host that a request is sent to, first or after a redirect, with the network in each attempt to
open a new connection to it: none where one is reused, several where it is retried. -/
structure Hop where
  host : String
  port : ℕ
  networks : List Network

/-- An attempt to connect, with the host and the network. -/
structure Opened where
  host : String
  net : Network
  attempt : Attempt

/-- The attempts to connect of one request. -/
def Client.send (client : Client) (hops : List Hop) : List Opened :=
  (if client.followRedirects then hops else hops.take 1).flatMap fun hop =>
    hop.networks.flatMap fun net =>
      client.pool.networkBackend.toList.map fun backend =>
        ⟨hop.host, net, backend.connectTcp net hop.host hop.port⟩

/-! ### What holds of an attempt -/

/-- The addresses of the host in one attempt, none where the name does not resolve. -/
def answer (ip : IpText) (net : Network) (host : String) : List Ip :=
  match addresses ip net host with
  | .error _ => []
  | .ok addrs => addrs

/-- Only checked addresses are asked for. -/
structure Checked (ip : IpText) (opened : Opened) : Prop where
  literal : ∀ asked ∈ opened.attempt.asked,
    ∃ addr ∈ answer ip opened.net opened.host, asked = ip.str addr ∧ parseIp ip asked = some addr
  allowed : opened.attempt.asked ≠ [] →
    ∀ addr ∈ answer ip opened.net opened.host, blockedIpReason addr = none
  mapped : opened.attempt.asked ≠ [] →
    ∀ n, .mapped n ∈ answer ip opened.net opened.host → blockedIpReason (.v4 n) = none
  zone : opened.attempt.asked ≠ [] → parseIp ip (bareName opened.host) = none →
    ∀ infos, opened.net.lookup (bareName opened.host) = .ok infos →
      ∀ addr zone, ip.str addr ++ "%" ++ zone ∈ infos → blockedIpReason addr = none
  order : opened.attempt.asked <+: (answer ip opened.net opened.host).map ip.str
  fallback : ∀ front asked back, opened.attempt.asked = front ++ asked :: back → back ≠ [] →
    ∃ exc, opened.net.dial asked = .failed exc
  name : ∀ name ∈ internalHosts ++ metadataHosts, Spells opened.host name →
    opened.attempt.asked = []

variable {ip : IpText} {py : Text.Lower} {net : Network} {host : String} {port : ℕ}

/-! ### The checks -/

/-- Where the check passes, the answer is returned, all of it allowed, and the name is not
blocked. -/
theorem checkedAddresses_eq_ok {addrs : List Ip} (h : checkedAddresses ip py net host = .ok addrs) :
    answer ip net host = addrs ∧ (∀ addr ∈ addrs, blockedIpReason addr = none) ∧
      blockedNameReason py (bareName host) = none := by
  unfold checkedAddresses at h
  split at h
  · cases h
  next hname =>
    split at h
    · cases h
    next found hfound =>
      split at h
      · cases h
      next hnone =>
        cases h
        refine ⟨by rw [answer, hfound], fun addr haddr => ?_, hname⟩
        simpa using List.findSome?_eq_none_iff.mp hnone addr haddr

/-- Each address that the lookup gives is an answer. -/
theorem mem_answer_of_mem_infos {infos : List String} {info : String} {addr : Ip}
    (hliteral : parseIp ip (bareName host) = none)
    (hlookup : net.lookup (bareName host) = .ok infos) (hinfo : info ∈ infos)
    (haddr : parseIp ip info = some addr) : addr ∈ answer ip net host := by
  have haddresses : addresses ip net host = .ok (infos.filterMap (parseIp ip)).eraseDups := by
    simp only [addresses, hliteral, hlookup]
  simp only [answer, haddresses, List.mem_eraseDups, List.mem_filterMap]
  exact ⟨info, hinfo, haddr⟩

/-- A blocked name is refused before it is resolved. -/
theorem blockedNameReason_of_spells {name : String} (hname : name ∈ internalHosts ++ metadataHosts)
    (h : Spells host name) : blockedNameReason py (bareName host) ≠ none := by
  obtain ⟨spelled, dots, hspelled, hdots, hhost⟩ := h
  rw [bareName, strip_brackets hname hspelled hdots hhost]
  exact Option.isSome_iff_ne_none.mp (isSome_blockedNameReason hname hspelled py hdots)

/-! ### The loop over the addresses -/

/-- The addresses asked for are the first ones; the next is asked for where one failed. -/
theorem asked_tryAddresses (ip : IpText) (net : Network) (port : ℕ) (addrs : List Ip)
    (last : Dial) :
    let asked := (tryAddresses (fun addr => plainBackend.connectTcp net (ip.str addr) port) addrs
      last).asked
    asked <+: addrs.map ip.str ∧ ∀ front text back, asked = front ++ text :: back → back ≠ [] →
      ∃ exc, net.dial text = .failed exc := by
  induction addrs generalizing last with
  | nil =>
    refine ⟨List.prefix_refl _, fun front text back h => ?_⟩
    simp [tryAddresses] at h
  | cons addr rest ih =>
    cases hdial : net.dial (ip.str addr) with
    | failed exc =>
      obtain ⟨hfront, hfailed⟩ := ih (.failed exc)
      simp only [tryAddresses, plainBackend, hdial] at hfront hfailed ⊢
      refine ⟨by simpa using hfront, fun front text back h hback => ?_⟩
      cases front with
      | nil =>
        obtain ⟨rfl, -⟩ := List.cons.inj h
        exact ⟨exc, hdial⟩
      | cons first front => exact hfailed front text back (List.cons.inj h).2 hback
    | connected | raised error =>
      simp only [tryAddresses, plainBackend, hdial]
      refine ⟨by simp, fun front text back h hback => ?_⟩
      simp [List.singleton_eq_append_iff, hback] at h

/-- The guarded backend opens only checked connections. -/
theorem checked_connectTcp : Checked ip
    ⟨host, net, (guardedBackend ip py plainBackend).connectTcp net host port⟩ := by
  simp only [guardedBackend]
  split
  · exact
      { literal := by simp
        allowed := by simp
        mapped := by simp
        zone := by simp
        order := by simp
        fallback := by simp
        name := by simp }
  next addrs haddrs =>
    obtain ⟨hanswer, hallowed, hname⟩ := checkedAddresses_eq_ok haddrs
    obtain ⟨hfront, hfailed⟩ := asked_tryAddresses ip net port addrs
      (.failed ("Could not resolve " ++ host))
    exact
      { literal := by
          intro asked hasked
          obtain ⟨addr, haddr, rfl⟩ := List.mem_map.mp (hfront.subset hasked)
          exact ⟨addr, hanswer ▸ haddr, rfl, parseIp_str ip addr⟩
        allowed := fun _ => hanswer ▸ hallowed
        mapped := fun _ n hn => by
          rw [← blockedIpReason_mapped]
          exact hallowed _ (hanswer ▸ hn)
        zone := fun _ hliteral infos hlookup addr zone hinfo =>
          hallowed _ (hanswer ▸
            mem_answer_of_mem_infos hliteral hlookup hinfo (parseIp_zone ip addr zone))
        order := hanswer ▸ hfront
        fallback := hfailed
        name := fun name hmem h => absurd hname (blockedNameReason_of_spells hmem h) }

/-! ### The client -/

/-- **The guarded client never reaches a blocked address**: over every chain of redirects and every
sequence of answers, each attempt to connect asks only for checked addresses. -/
theorem safeAsyncClient_checked {args : ClientArgs} {client : Client}
    (hclient : safeAsyncClient ip py ⟨some plainBackend⟩ args = .ok client)
    (requests : List (List Hop)) : ∀ opened ∈ requests.flatMap client.send, Checked ip opened := by
  have hpool : client.pool = ⟨some (guardedBackend ip py plainBackend)⟩ := by
    unfold safeAsyncClient at hclient
    split at hclient
    · cases hclient
    · cases hclient
      rfl
  intro opened hopened
  obtain ⟨hops, -, hsend⟩ := List.mem_flatMap.mp hopened
  obtain ⟨hop, -, hhop⟩ := List.mem_flatMap.mp hsend
  obtain ⟨net, -, hnet⟩ := List.mem_flatMap.mp hhop
  rw [hpool] at hnet
  obtain rfl := List.mem_singleton.mp hnet
  exact checked_connectTcp

/-- A device that redirects to the core itself. -/
def redirectToCore : List Hop :=
  [⟨"192.168.1.20", 80, [⟨fun _ => .error "", fun _ => .failed "refused"⟩,
      ⟨fun _ => .error "", fun _ => .connected⟩]⟩,
    ⟨"[LocalHost.]", 80, [⟨fun _ => .ok ["127.0.0.1"], fun _ => .connected⟩]⟩]

/-- A client that follows redirects. -/
def redirectClient : Client :=
  ⟨⟨some (guardedBackend .full .asciiOnly plainBackend)⟩, true⟩

theorem safeAsyncClient_checked_redirectToCore :
    safeAsyncClient .full .asciiOnly ⟨some plainBackend⟩ ⟨false, some true⟩ = .ok redirectClient ∧
      (redirectClient.send redirectToCore).map (fun opened => opened.attempt.asked) =
        [["192.168.1.20"], ["192.168.1.20"], []] ∧
      ∀ opened ∈ [redirectToCore].flatMap redirectClient.send, Checked .full opened := by
  have hclient : safeAsyncClient .full .asciiOnly ⟨some plainBackend⟩ ⟨false, some true⟩ =
      .ok redirectClient := rfl
  exact ⟨hclient, by decide, safeAsyncClient_checked hclient [redirectToCore]⟩

end Nodeglow.NetSafety
