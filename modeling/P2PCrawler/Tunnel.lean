import P2PCrawler.Lib.Exchange
import P2PCrawler.Frame
import P2PCrawler.Sam
import P2PCrawler.Crawler.Peer

/-!
# Tunnels through a SOCKS5 proxy and a SAM router (`transport.rs`)

Before the peer says its first byte, the crawler and the proxy or router negotiate on the same
connection.  The negotiation has to take exactly its own bytes off the stream: what follows are
the envelopes of the peer.

* `socks5Greeting`, `socks5Connect`, `connectSocks5` — the two replies of a SOCKS5 proxy.
* `samReadLine`, `samHello`, `samConnect`, `samCreate` — the two lines of a SAM router.
* `Socks5Negotiation`, `SamNegotiation` — the bytes of a successful negotiation.

## Results

* `connectSocks5_ok_iff`, `samConnect_ok_iff` — a tunnel opens exactly behind such bytes, and
  nothing else is read.
* `samConnect_answer`, `samCreate_answer` — the logic of the shared session sees what the
  exchange comes to.
* `tunnel_exact` — **what is behind the negotiation is left for the peer, a stream that is cut
  short or refuses is an error, and the request names the peer.**
-/

set_option autoImplicit false

namespace P2PCrawler.Tunnel

open Exchange Reader

/-! ## Errors -/

/-- `io::Error`, with its text. -/
structure TunnelError where
  kind : IoErrorKind
  text : String
  deriving DecidableEq, Repr

/-- `io::Error::other`. -/
def TunnelError.other (text : String) : TunnelError := ⟨.other, text⟩

/-- Why a negotiation does not go on: an error, or nothing more happens until the connect
    timeout. -/
inductive Abort where
  | failed (e : TunnelError)
  | stalled
  deriving DecidableEq, Repr

/-- What a read finds behind the last byte that arrives. -/
inductive StreamEnd where
  | closed
  | reset (e : TunnelError)
  | silent
  deriving DecidableEq, Repr

/-- What a read behind the last byte comes to, where the end of the stream is the error `eof`. -/
def StreamEnd.abort (eof : TunnelError) : StreamEnd → Abort
  | .closed => .failed eof
  | .reset e => .failed e
  | .silent => .stalled

/-- How a connection goes wrong, once it does. -/
structure Faults where
  streamEnd : StreamEnd
  /-- what a write comes to that does not go through -/
  write : Abort
  deriving DecidableEq, Repr

/-- `TcpStream::connect` by address, and how the connection goes wrong. -/
structure Route where
  dial : String → Except Abort (Channel Byte)
  faults : Faults

/-- `tokio::time::timeout` around a negotiation. -/
def timeout {α : Type} (text : String) : Except Abort α → Except TunnelError α
  | .ok a => .ok a
  | .error (.failed e) => .error e
  | .error .stalled => .error ⟨.timedOut, text⟩

/-- `read_exact`. -/
def readExact (f : Faults) (n : Nat) : Exchange Byte Abort (List Byte) :=
  read (Reader.take (f.streamEnd.abort ⟨.unexpectedEof, "early eof"⟩) n)

/-! ## SOCKS5 -/

/-- `[u8]` under `{:02x?}`. -/
def hexDebug (bytes : List Byte) : String := "[" ++ ", ".intercalate (bytes.map hexByte) ++ "]"

/-- Greeting + method selection: `05 01 00` -> `05 00`. -/
def socks5Greeting (f : Faults) : Exchange Byte Abort Unit := do
  write f.write [0x05, 0x01, 0x00]
  let reply ← readExact f 2
  check (reply = [0x05, 0x00])
    (.failed (.other ("socks5 method selection failed: " ++ hexDebug reply)))

/-- VER, CMD=CONNECT, RSV, ATYP=DOMAIN, the host behind its length, the port big-endian. -/
def socks5Request (hostBytes : List Byte) (port : UInt16) : List Byte :=
  [0x05, 0x01, 0x00, 0x03] ++ [UInt8.ofNat hostBytes.length] ++ hostBytes ++ beBytes 2 port.toNat

/-- The length of BND.ADDR by ATYP; a domain carries its own. -/
def socks5AddrLen (f : Faults) (atyp : Byte) : Exchange Byte Abort Nat :=
  if atyp = 0x01 then pure 4
  else if atyp = 0x04 then pure 16
  else if atyp = 0x03 then do
    let l ← readExact f 1
    pure (l.headD 0).toNat
  else ofResult (.error (.failed (.other s!"socks5 reply unknown ATYP {atyp.toNat}")))

/-- CONNECT with ATYP=DOMAINNAME, then parse the reply. -/
def socks5Connect (f : Faults) (host : String) (port : UInt16) : Exchange Byte Abort Unit := do
  let hostBytes := utf8 host.toList
  check (hostBytes.length ≤ 255) (.failed (.other "socks5 host too long"))
  write f.write (socks5Request hostBytes port)
  let head ← readExact f 4
  check (head.getD 1 0 = 0x00)
    (.failed (.other ("socks5 connect failed: REP=0x" ++ hexByte (head.getD 1 0))))
  let addrLen ← socks5AddrLen f (head.getD 3 0)
  let _ ← readExact f (addrLen + 2)
  pure ()

/-- Connect to `host:port` through a SOCKS5 proxy using DOMAINNAME (remote DNS). -/
def connectSocks5 (route : Route) (proxyHost : String) (proxyPort : UInt16) (host : String)
    (port : UInt16) : Except TunnelError (Channel Byte) :=
  timeout "socks5 connect timed out" do
    let stream ← route.dial s!"{proxyHost}:{proxyPort.toNat}"
    let (_, stream) ← socks5Greeting route.faults stream
    let (_, stream) ← socks5Connect route.faults host port stream
    pure stream

/-! ## SAM -/

/-- The loop of `sam_read_line`, with the bytes of the line so far. -/
def readLine (f : Faults) : List Byte → Reader Byte Abort (List Byte)
  | _, [] =>
    .error (f.streamEnd.abort ⟨.unexpectedEof, "SAM connection closed before newline"⟩)
  | line, byte :: rest =>
    if byte = 10 then .ok (line, rest)
    else if 4096 < (line ++ [byte]).length then .error (.failed (.other "SAM line too long"))
    else readLine f (line ++ [byte]) rest

/-- Read a single line from a SAM control/stream socket. -/
def samReadLine (f : Faults) : Exchange Byte Abort String := do
  let line ← read (readLine f [])
  pure (fromUtf8Lossy line)

/-- A message to the router, and the line it answers with. -/
def samAsk (f : Faults) (message : String) : Exchange Byte Abort String := do
  write f.write (utf8 message.toList)
  samReadLine f

def samHello (f : Faults) : Exchange Byte Abort Unit := do
  let reply ← samAsk f "HELLO VERSION MIN=3.0 MAX=3.1\n"
  ofResult ((P2PCrawler.samHello reply).mapError fun text => .failed (.other text))

/-- A greeting, one command, and its reply, which has to show `marker` and success. -/
def samCommand (f : Faults) (command marker failure : String) : Exchange Byte Abort Unit := do
  samHello f
  let reply ← samAsk f command
  check (textContains reply marker = true ∧ textContains reply "RESULT=OK" = true)
    (.failed (.other (failure ++ trimText reply)))

/-- A connection to the router, and a command on it. -/
def samOpen (route : Route) (routerHost : String) (routerPort : UInt16)
    (command marker failure late : String) : Except TunnelError (Channel Byte) :=
  timeout late do
    let stream ← route.dial s!"{routerHost}:{routerPort.toNat}"
    let (_, stream) ← samCommand route.faults command marker failure stream
    pure stream

/-- The command of `SamSession::create`. -/
def sessionCreate (sessionId : String) : String :=
  s!"SESSION CREATE STYLE=STREAM ID={sessionId} DESTINATION=TRANSIENT SIGNATURE_TYPE=7\n"

/-- `SamSession::create`: the session with its control socket. -/
def samCreate (route : Route) (routerHost : String) (routerPort : UInt16) (arc : Nat)
    (random : UInt32) : Except TunnelError (SamSession × Channel Byte) := do
  let sessionId := s!"crawler{random.toNat}"
  let control ← samOpen route routerHost routerPort (sessionCreate sessionId)
    "SESSION STATUS" "SAM session create failed: " "SAM session create timed out"
  pure (⟨arc, sessionId⟩, control)

/-- The command of `SamSession::connect`. -/
def streamConnect (session : SamSession) (host : String) : String :=
  s!"STREAM CONNECT ID={session.sessionId} DESTINATION={host} SILENT=false\n"

/-- `SamSession::connect`: a stream to a destination over the session. -/
def samConnect (route : Route) (routerHost : String) (routerPort : UInt16) (session : SamSession)
    (host : String) : Except TunnelError (Channel Byte) :=
  samOpen route routerHost routerPort (streamConnect session host)
    "STREAM STATUS" "SAM stream connect failed: " "SAM stream connect timed out"

/-! ## What a negotiation consists of -/

/-- A reply of the proxy that reports success. -/
inductive Socks5Reply : List Byte → Prop where
  | ipv4 {ver rsv : Byte} {addr port : List Byte} (ha : addr.length = 4) (hp : port.length = 2) :
      Socks5Reply (ver :: 0x00 :: rsv :: 0x01 :: (addr ++ port))
  | domain {ver rsv len : Byte} {name port : List Byte} (hn : name.length = len.toNat)
      (hp : port.length = 2) : Socks5Reply (ver :: 0x00 :: rsv :: 0x03 :: len :: (name ++ port))
  | ipv6 {ver rsv : Byte} {addr port : List Byte} (ha : addr.length = 16) (hp : port.length = 2) :
      Socks5Reply (ver :: 0x00 :: rsv :: 0x04 :: (addr ++ port))

def Socks5Negotiation (w : List Byte) : Prop :=
  ∃ reply, Socks5Reply reply ∧ w = 0x05 :: 0x00 :: reply

/-- A line of at most 4096 bytes, with what it is read as. -/
def LineText (text : String) (w : List Byte) : Prop :=
  ∃ line : List Byte, 10 ∉ line ∧ line.length ≤ 4096 ∧ text = fromUtf8Lossy line ∧ w = line ++ [10]

/-- A line of the router that shows `marker` and reports success. -/
def SamLine (marker : String) (w : List Byte) : Prop :=
  ∃ text, LineText text w ∧ textContains text marker = true ∧ textContains text "RESULT=OK" = true

/-- The greeting of the router and its reply to a command. -/
def SamNegotiation (marker : String) (w : List Byte) : Prop :=
  ∃ hello status, SamLine "HELLO REPLY" hello ∧ SamLine marker status ∧ w = hello ++ status

/-! ## The dialogue with the proxy -/

/-- A read of `n` bytes, and what comes behind it. -/
theorem follows_readExact_bind {γ : Type} (f : Faults) (n : Nat)
    {g : List Byte → Exchange Byte Abort γ} {G : List Byte → Dialogue γ Byte}
    (hg : ∀ x, Follows (g x) (G x)) : Follows (readExact f n >>= g)
      (fun b out w => ∃ x v, x.length = n ∧ G x b out v ∧ w = x ++ v) := by
  refine (Follows.read_bind (recognizes_take _ n) hg).congr fun b out w => ?_
  constructor
  · rintro ⟨x, _, v, ⟨rfl, hx⟩, hG, rfl⟩
    exact ⟨_, v, hx, hG, rfl⟩
  · rintro ⟨x, v, hx, hG, rfl⟩
    exact ⟨x, x, v, ⟨rfl, hx⟩, hG, rfl⟩

theorem follows_socks5Greeting (f : Faults) : Follows (socks5Greeting f)
    (fun _ out w => out = [[0x05, 0x01, 0x00]] ∧ w = [0x05, 0x00]) := by
  refine (Follows.write_bind _ _ <| follows_readExact_bind f 2 fun reply =>
    follows_check _ _).congr fun _ out w => ?_
  constructor
  · rintro ⟨_, ⟨_, _, -, ⟨rfl, rfl, rfl⟩, rfl⟩, rfl⟩
    exact ⟨rfl, rfl⟩
  · rintro ⟨rfl, rfl⟩
    exact ⟨[], ⟨_, [], rfl, ⟨rfl, rfl, rfl⟩, rfl⟩, rfl⟩

/-- The length of the address that an ATYP announces, and the bytes that tell it. -/
inductive AddrLen : Byte → Nat → List Byte → Prop where
  | ipv4 : AddrLen 0x01 4 []
  | domain (len : Byte) : AddrLen 0x03 len.toNat [len]
  | ipv6 : AddrLen 0x04 16 []

theorem follows_socks5AddrLen (f : Faults) (atyp : Byte) : Follows (socks5AddrLen f atyp)
    (fun n out w => AddrLen atyp n w ∧ out = []) := by
  unfold socks5AddrLen
  split
  · rename_i hatyp
    subst hatyp
    refine (follows_pure 4).congr fun n out w => ?_
    constructor
    · rintro ⟨rfl, rfl, rfl⟩
      exact ⟨.ipv4, rfl⟩
    · rintro ⟨⟨⟩, rfl⟩
      exact ⟨rfl, rfl, rfl⟩
  split
  · rename_i hatyp
    subst hatyp
    refine (follows_pure 16).congr fun n out w => ?_
    constructor
    · rintro ⟨rfl, rfl, rfl⟩
      exact ⟨.ipv6, rfl⟩
    · rintro ⟨⟨⟩, rfl⟩
      exact ⟨rfl, rfl, rfl⟩
  split
  · rename_i hatyp
    subst hatyp
    refine (follows_readExact_bind f 1 fun l => follows_pure _).congr fun n out w => ?_
    constructor
    · rintro ⟨x, _, hx, ⟨rfl, rfl, rfl⟩, rfl⟩
      obtain ⟨len, rfl⟩ := List.length_eq_one_iff.mp hx
      exact ⟨.domain len, rfl⟩
    · rintro ⟨⟨⟩, rfl⟩
      rename_i len
      exact ⟨[len], [], rfl, ⟨rfl, rfl, rfl⟩, rfl⟩
  · refine (follows_ofResult _).congr fun n out w => ?_
    constructor
    · rintro ⟨h, -⟩
      cases h
    · rintro ⟨⟨⟩, -⟩ <;> contradiction

/-- The head of a reply, its address and its port. -/
theorem socks5Reply_iff {w : List Byte} : Socks5Reply w ↔
    ∃ head n u rest, head.length = 4 ∧ head.getD 1 0 = 0x00 ∧ AddrLen (head.getD 3 0) n u ∧
      rest.length = n + 2 ∧ w = head ++ (u ++ rest) := by
  constructor
  · intro h
    cases h with
    | @ipv4 ver rsv addr port ha hp =>
      exact ⟨[ver, 0x00, rsv, 0x01], 4, [], addr ++ port, rfl, rfl, .ipv4,
        by rw [List.length_append, ha, hp], rfl⟩
    | @domain ver rsv len name port hn hp =>
      exact ⟨[ver, 0x00, rsv, 0x03], len.toNat, [len], name ++ port, rfl, rfl, .domain len,
        by rw [List.length_append, hn, hp], rfl⟩
    | @ipv6 ver rsv addr port ha hp =>
      exact ⟨[ver, 0x00, rsv, 0x04], 16, [], addr ++ port, rfl, rfl, .ipv6,
        by rw [List.length_append, ha, hp], rfl⟩
  · rintro ⟨head, n, u, rest, hhead, hrep, hlen, hrest, rfl⟩
    obtain ⟨ver, rep, rsv, atyp, rfl⟩ : ∃ a b c d, head = [a, b, c, d] := by
      match head, hhead with
      | [a, b, c, d], _ => exact ⟨a, b, c, d, rfl⟩
    obtain ⟨addr, port, rfl, haddr, hport⟩ := exists_append_of_length hrest
    change rep = 0x00 at hrep
    change AddrLen atyp n u at hlen
    subst hrep
    cases hlen with
    | ipv4 =>
      show Socks5Reply (ver :: 0x00 :: rsv :: 0x01 :: (addr ++ port))
      exact .ipv4 haddr hport
    | domain len =>
      show Socks5Reply (ver :: 0x00 :: rsv :: 0x03 :: len :: (addr ++ port))
      exact .domain haddr hport
    | ipv6 =>
      show Socks5Reply (ver :: 0x00 :: rsv :: 0x04 :: (addr ++ port))
      exact .ipv6 haddr hport

theorem follows_socks5Connect (f : Faults) (host : String) (port : UInt16) :
    Follows (socks5Connect f host port) (fun _ out w => (utf8 host.toList).length ≤ 255 ∧
      out = [socks5Request (utf8 host.toList) port] ∧ Socks5Reply w) := by
  refine (Follows.check_bind _ _ <| Follows.write_bind _ _ <| follows_readExact_bind f 4 fun head =>
    Follows.check_bind _ _ <| (follows_socks5AddrLen f _).bind fun n =>
      follows_readExact_bind f (n + 2) fun _ => follows_pure ()).congr fun _ out w => ?_
  rw [socks5Reply_iff]
  constructor
  · rintro ⟨hhost, _, ⟨head, _, hhead, ⟨hrep, n, _, u, _, _, ⟨hlen, rfl⟩,
      ⟨rest, _, hrest, ⟨-, rfl, rfl⟩, rfl⟩, rfl, rfl⟩, rfl⟩, rfl⟩
    exact ⟨hhost, rfl, head, n, u, rest, hhead, hrep, hlen, hrest, by rw [List.append_nil]⟩
  · rintro ⟨hhost, rfl, head, n, u, rest, hhead, hrep, hlen, hrest, rfl⟩
    refine ⟨hhost, [], ⟨head, u ++ (rest ++ []), hhead, ⟨hrep, n, [], u, [], _, ⟨hlen, rfl⟩,
      ⟨rest, [], hrest, ⟨rfl, rfl, rfl⟩, rfl⟩, rfl, rfl⟩, ?_⟩, rfl⟩
    rw [List.append_nil]

theorem timeout_ok_iff {α : Type} {text : String} {x : Except Abort α} {a : α} :
    timeout text x = .ok a ↔ x = .ok a := by
  cases x with
  | ok b =>
    show Except.ok b = .ok a ↔ _
    rw [Except.ok.injEq, Except.ok.injEq]
  | error e => cases e <;> exact ⟨nofun, nofun⟩

/-- Both parts of the negotiation with a proxy. -/
def socks5Negotiate (f : Faults) (host : String) (port : UInt16) : Exchange Byte Abort Unit := do
  socks5Greeting f
  socks5Connect f host port

theorem follows_socks5Negotiate (f : Faults) (host : String) (port : UInt16) :
    Follows (socks5Negotiate f host port) (fun _ out w => (utf8 host.toList).length ≤ 255 ∧
      out = [[0x05, 0x01, 0x00], socks5Request (utf8 host.toList) port] ∧ Socks5Negotiation w) := by
  refine ((follows_socks5Greeting f).bind fun _ => follows_socks5Connect f host port).congr
    fun _ out w => ?_
  constructor
  · rintro ⟨_, _, _, _, reply, ⟨rfl, rfl⟩, ⟨hhost, rfl, hreply⟩, rfl, rfl⟩
    exact ⟨hhost, rfl, reply, hreply, rfl⟩
  · rintro ⟨hhost, rfl, reply, hreply, rfl⟩
    exact ⟨(), _, _, _, reply, ⟨rfl, rfl⟩, ⟨hhost, rfl, hreply⟩, rfl, rfl⟩

theorem connectSocks5_eq {route : Route} {proxyHost host : String} {proxyPort port : UInt16}
    {stream : Channel Byte} (hdial : route.dial s!"{proxyHost}:{proxyPort.toNat}" = .ok stream) :
    connectSocks5 route proxyHost proxyPort host port = timeout "socks5 connect timed out"
      ((socks5Negotiate route.faults host port stream).map Prod.snd) := by
  unfold connectSocks5
  rw [hdial]
  show timeout _ (Except.bind (socks5Greeting route.faults stream) _) =
    timeout _ (Except.map _ (Except.bind (socks5Greeting route.faults stream) _))
  cases socks5Greeting route.faults stream with
  | error e => rfl
  | ok p =>
    show timeout _ (Except.bind (socks5Connect route.faults host port p.2) _) =
      timeout _ (Except.map _ (socks5Connect route.faults host port p.2))
    cases socks5Connect route.faults host port p.2 <;> rfl

/-! ## The dialogue with the router -/

/-- A line is read up to its end, behind what was read of it before. -/
theorem readLine_ok_iff (f : Faults) {pre b line rest : List Byte} (hpre : pre.length ≤ 4096) :
    readLine f pre b = .ok (line, rest) ↔
      ∃ more, line = pre ++ more ∧ 10 ∉ more ∧ line.length ≤ 4096 ∧ b = more ++ 10 :: rest := by
  induction b generalizing pre with
  | nil =>
    unfold readLine
    constructor
    · nofun
    · rintro ⟨more, -, -, -, h⟩
      simp at h
  | cons byte b ih =>
    unfold readLine
    by_cases hbyte : byte = 10
    · rw [if_pos hbyte]
      subst hbyte
      constructor
      · intro h
        cases h
        exact ⟨[], by rw [List.append_nil], by simp, hpre, rfl⟩
      · rintro ⟨more, rfl, hmore, -, heq⟩
        cases more with
        | nil =>
          cases heq
          rw [List.append_nil]
        | cons m more =>
          cases heq
          simp at hmore
    · rw [if_neg hbyte]
      by_cases hlong : 4096 < (pre ++ [byte]).length
      · rw [if_pos hlong]
        constructor
        · nofun
        · rintro ⟨more, rfl, -, hlen, heq⟩
          cases more with
          | nil =>
            cases heq
            exact absurd rfl hbyte
          | cons m more =>
            simp only [List.length_append, List.length_cons, List.length_nil] at hlong hlen
            omega
      · rw [if_neg hlong, ih (by omega)]
        constructor
        · rintro ⟨more, rfl, hmore, hlen, rfl⟩
          refine ⟨byte :: more, by simp, ?_, hlen, rfl⟩
          simpa using ⟨Ne.symm hbyte, hmore⟩
        · rintro ⟨more, rfl, hmore, hlen, heq⟩
          cases more with
          | nil =>
            cases heq
            exact absurd rfl hbyte
          | cons m more =>
            cases heq
            exact ⟨more, by simp, fun h => hmore (List.mem_cons_of_mem _ h), hlen, rfl⟩

theorem recognizes_readLine (f : Faults) : Recognizes (readLine f [])
    (fun line w => 10 ∉ line ∧ line.length ≤ 4096 ∧ w = line ++ [10]) := by
  intro b line rest
  rw [readLine_ok_iff f (Nat.zero_le _)]
  constructor
  · rintro ⟨_, rfl, hmore, hlen, rfl⟩
    exact ⟨_, ⟨hmore, hlen, rfl⟩, by simp⟩
  · rintro ⟨_, ⟨hmore, hlen, rfl⟩, rfl⟩
    exact ⟨line, rfl, hmore, hlen, by simp⟩

theorem follows_samReadLine (f : Faults) :
    Follows (samReadLine f) (fun text out w => LineText text w ∧ out = []) := by
  refine (Follows.read_bind (recognizes_readLine f) fun line => follows_pure _).congr
    fun text out w => ?_
  constructor
  · rintro ⟨line, _, _, ⟨hline, hlen, rfl⟩, ⟨rfl, rfl, rfl⟩, rfl⟩
    exact ⟨⟨line, hline, hlen, rfl, by rw [List.append_nil]⟩, rfl⟩
  · rintro ⟨⟨line, hline, hlen, rfl, rfl⟩, rfl⟩
    exact ⟨line, _, [], ⟨hline, hlen, rfl⟩, ⟨rfl, rfl, rfl⟩, by rw [List.append_nil]⟩

/-- The router is asked, and its answer looked at. -/
theorem follows_samAsk_bind (f : Faults) (message : String) {g : String → Exchange Byte Abort Unit}
    {p : String → Prop} (hg : ∀ text, Follows (g text) (fun _ out w => p text ∧ out = [] ∧ w = [])) :
    Follows (samAsk f message >>= g) (fun _ out w =>
      (∃ text, LineText text w ∧ p text) ∧ out = [utf8 message.toList]) := by
  refine ((Follows.write_bind _ _ (follows_samReadLine f)).bind hg).congr fun _ out w => ?_
  constructor
  · rintro ⟨text, _, line, _, _, ⟨_, ⟨hline, rfl⟩, rfl⟩, ⟨hp, rfl, rfl⟩, rfl, rfl⟩
    rw [List.append_nil]
    exact ⟨⟨text, hline, hp⟩, rfl⟩
  · rintro ⟨⟨text, hline, hp⟩, rfl⟩
    exact ⟨text, _, w, [], [], ⟨[], ⟨hline, rfl⟩, rfl⟩, ⟨hp, rfl, rfl⟩, rfl,
      (List.append_nil w).symm⟩

theorem samHello_ok_iff (reply : String) : P2PCrawler.samHello reply = .ok () ↔
    textContains reply "HELLO REPLY" = true ∧ textContains reply "RESULT=OK" = true := by
  unfold P2PCrawler.samHello
  cases textContains reply "HELLO REPLY" <;> cases textContains reply "RESULT=OK" <;> simp

def helloCommand : List Byte := utf8 "HELLO VERSION MIN=3.0 MAX=3.1\n".toList

theorem follows_samHello (f : Faults) :
    Follows (samHello f) (fun _ out w => SamLine "HELLO REPLY" w ∧ out = [helloCommand]) := by
  have hcheck : ∀ text : String, Follows (ofResult ((P2PCrawler.samHello text).mapError
      fun text => .failed (.other text)) : Exchange Byte Abort Unit) (fun _ out w =>
        (textContains text "HELLO REPLY" = true ∧ textContains text "RESULT=OK" = true) ∧
          out = [] ∧ w = []) := by
    intro text
    refine (follows_ofResult _).congr fun _ out w => and_congr_left fun _ => ?_
    rw [← samHello_ok_iff]
    cases P2PCrawler.samHello text with
    | error e => exact ⟨nofun, nofun⟩
    | ok u => exact ⟨fun _ => rfl, fun _ => rfl⟩
  exact follows_samAsk_bind f _ hcheck

theorem follows_samCommand (f : Faults) (command marker failure : String) :
    Follows (samCommand f command marker failure) (fun _ out w =>
      SamNegotiation marker w ∧ out = [helloCommand, utf8 command.toList]) := by
  refine ((follows_samHello f).bind fun _ => follows_samAsk_bind f _ fun text =>
    follows_check _ _).congr fun _ out w => ?_
  constructor
  · rintro ⟨_, _, hello, _, status, ⟨hhello, rfl⟩, ⟨hstatus, rfl⟩, rfl, rfl⟩
    exact ⟨⟨hello, status, hhello, hstatus, rfl⟩, rfl⟩
  · rintro ⟨⟨hello, status, hhello, hstatus, rfl⟩, rfl⟩
    exact ⟨(), _, hello, _, status, ⟨hhello, rfl⟩, ⟨hstatus, rfl⟩, rfl, rfl⟩

theorem samOpen_eq {route : Route} {routerHost : String} {routerPort : UInt16}
    {command marker failure late : String} {stream : Channel Byte}
    (hdial : route.dial s!"{routerHost}:{routerPort.toNat}" = .ok stream) :
    samOpen route routerHost routerPort command marker failure late =
      timeout late ((samCommand route.faults command marker failure stream).map Prod.snd) := by
  unfold samOpen
  rw [hdial]
  show timeout _ (Except.bind (samCommand route.faults _ _ _ stream) _) =
    timeout _ (Except.map _ (samCommand route.faults _ _ _ stream))
  cases samCommand route.faults _ _ _ stream <;> rfl

/-! ## The session -/

/-- The exchange as a whole, as the logic of the session sees it. -/
def routerAnswer (route : Route) (address command : String) : RouterAnswer :=
  match route.dial address with
  | .error .stalled => .timedOut
  | .error (.failed e) => .failed e.text
  | .ok stream =>
    match samAsk route.faults "HELLO VERSION MIN=3.0 MAX=3.1\n" stream with
    | .error .stalled => .timedOut
    | .error (.failed e) => .failed e.text
    | .ok (hello, stream) =>
      match P2PCrawler.samHello hello with
      -- nothing is asked behind a greeting that was refused
      | .error e => .replies hello (.error e)
      | .ok () =>
        match samAsk route.faults command stream with
        | .error .stalled => .timedOut
        | .error (.failed e) => .replies hello (.error e.text)
        | .ok (reply, _) => .replies hello (.ok reply)

/-- A command, round by round. -/
theorem samCommand_eq (f : Faults) (command marker failure : String) (stream : Channel Byte) :
    samCommand f command marker failure stream =
      match samAsk f "HELLO VERSION MIN=3.0 MAX=3.1\n" stream with
      | .error e => .error e
      | .ok (hello, stream) =>
        match P2PCrawler.samHello hello with
        | .error e => .error (.failed (.other e))
        | .ok () =>
          match samAsk f command stream with
          | .error e => .error e
          | .ok (reply, stream) =>
            if textContains reply marker = true ∧ textContains reply "RESULT=OK" = true then
              .ok ((), stream)
            else .error (.failed (.other (failure ++ trimText reply))) := by
  show Except.bind (Except.bind (samAsk f _ stream) _) _ = _
  cases samAsk f "HELLO VERSION MIN=3.0 MAX=3.1\n" stream with
  | error e => rfl
  | ok p =>
    obtain ⟨hello, stream⟩ := p
    show Except.bind ((Except.mapError _ (P2PCrawler.samHello hello)).map _) _ = _
    simp only
    cases P2PCrawler.samHello hello with
    | error e => rfl
    | ok u =>
      show Except.bind (samAsk f command stream) _ = _
      simp only
      cases samAsk f command stream with
      | error e => rfl
      | ok p =>
        show Except.map _ (if _ then Except.ok () else Except.error _) = _
        simp only
        split <;> rfl

/-- What the session logic makes of an answer, by the texts of the command. -/
def answered (marker failure late : String) : RouterAnswer → Except String Unit
  | .timedOut => .error late
  | .failed error => .error error
  | .replies hello second => do
    P2PCrawler.samHello hello
    let reply ← second
    if !textContains reply marker || !textContains reply "RESULT=OK" then
      .error (failure ++ trimText reply)
    else .ok ()

theorem samOpen_answered (route : Route) (routerHost : String) (routerPort : UInt16)
    (command marker failure late : String) :
    ((samOpen route routerHost routerPort command marker failure late).map fun _ => ()).mapError
      (·.text) = answered marker failure late
        (routerAnswer route s!"{routerHost}:{routerPort.toNat}" command) := by
  unfold samOpen routerAnswer
  cases route.dial s!"{routerHost}:{routerPort.toNat}" with
  | error e => cases e <;> rfl
  | ok stream =>
    simp only [bind, Except.bind, samCommand_eq]
    cases samAsk route.faults "HELLO VERSION MIN=3.0 MAX=3.1\n" stream with
    | error e => cases e <;> rfl
    | ok p =>
      obtain ⟨hello, stream⟩ := p
      simp only
      cases hhello : P2PCrawler.samHello hello with
      | error e =>
        simp only [answered, hhello, bind, Except.bind]
        rfl
      | ok u =>
        simp only
        cases samAsk route.faults command stream with
        | error e =>
          cases e with
          | failed e =>
            simp only [answered, hhello, bind, Except.bind]
            rfl
          | stalled => rfl
        | ok p =>
          simp only [answered, hhello, bind, Except.bind]
          cases textContains p.1 marker <;> cases textContains p.1 "RESULT=OK" <;> rfl

/-- **The session logic sees what the exchange comes to**, for a stream as for a session. -/
theorem samConnect_answer (route : Route) (routerHost host : String) (routerPort : UInt16)
    (session : SamSession) :
    ((samConnect route routerHost routerPort session host).map fun _ => ()).mapError (·.text) =
      SamSession.connect (routerAnswer route s!"{routerHost}:{routerPort.toNat}"
        (streamConnect session host)) := by
  unfold samConnect
  rw [samOpen_answered]
  generalize routerAnswer _ _ _ = answer
  cases answer <;> rfl

theorem samCreate_answer (route : Route) (routerHost : String) (routerPort : UInt16) (arc : Nat)
    (random : UInt32) :
    ((samCreate route routerHost routerPort arc random).map Prod.fst).mapError (·.text) =
      SamSession.create arc s!"crawler{random.toNat}"
        (routerAnswer route s!"{routerHost}:{routerPort.toNat}"
          (sessionCreate s!"crawler{random.toNat}")) := by
  have hcreate : ∀ answer : RouterAnswer, SamSession.create arc s!"crawler{random.toNat}" answer =
      (answered "SESSION STATUS" "SAM session create failed: " "SAM session create timed out"
        answer).map fun _ => ⟨arc, s!"crawler{random.toNat}"⟩ := by
    intro answer
    cases answer with
    | timedOut | failed => rfl
    | replies hello second =>
      simp only [SamSession.create, answered]
      cases P2PCrawler.samHello hello with
      | error e => rfl
      | ok u =>
        cases second with
        | error e => rfl
        | ok reply =>
          show (if _ then Except.error _ else Except.ok _) = Except.map _ (if _ then _ else _)
          split <;> rfl
  rw [hcreate, ← samOpen_answered]
  unfold samCreate
  show ((Except.bind (samOpen ..) _).map _).mapError _ = _
  cases samOpen route routerHost routerPort _ _ _ _ <;> rfl

/-! ## Opening a tunnel -/

section Opening
variable {x : Exchange Byte Abort Unit} {D : Dialogue Unit Byte} {text : String}
  {stream stream' : Channel Byte}

/-- The connection a negotiation hands over. -/
theorem opens_iff (h : Follows x D) : timeout text ((x stream).map Prod.snd) = .ok stream' ↔
    ∃ out w, D () out w ∧ stream.unread = w ++ stream'.unread ∧
      stream'.sent = stream.sent ++ out ∧ stream.writable = out.length + stream'.writable := by
  rw [timeout_ok_iff, ← h]
  cases x stream with
  | error e => exact ⟨nofun, nofun⟩
  | ok p =>
    show Except.ok p.2 = .ok stream' ↔ Except.ok ((), p.2) = .ok ((), stream')
    rw [Except.ok.injEq, Except.ok.injEq, Prod.mk.injEq]
    exact ⟨fun heq => ⟨rfl, heq⟩, And.right⟩

theorem refuses (h : Follows x D) (hno : ∀ out w rest, D () out w → stream.unread ≠ w ++ rest) :
    ∃ e, timeout text ((x stream).map Prod.snd) = .error e := by
  obtain ⟨e, he⟩ := h.fails fun _ => hno
  rw [he]
  cases e with
  | failed e => exact ⟨e, rfl⟩
  | stalled => exact ⟨_, rfl⟩

end Opening

/-- **SOCKS5.**  A tunnel opens exactly behind a negotiation, if the connection takes both
    messages and the host fits into its length byte. -/
theorem connectSocks5_ok_iff {route : Route} {proxyHost host : String} {proxyPort port : UInt16}
    {stream stream' : Channel Byte}
    (hdial : route.dial s!"{proxyHost}:{proxyPort.toNat}" = .ok stream) :
    connectSocks5 route proxyHost proxyPort host port = .ok stream' ↔
      (utf8 host.toList).length ≤ 255 ∧ stream.writable = 2 + stream'.writable ∧
      stream'.sent =
        stream.sent ++ [[0x05, 0x01, 0x00], socks5Request (utf8 host.toList) port] ∧
      ∃ w, Socks5Negotiation w ∧ stream.unread = w ++ stream'.unread := by
  rw [connectSocks5_eq hdial, opens_iff (follows_socks5Negotiate route.faults host port)]
  constructor
  · rintro ⟨_, w, ⟨hhost, rfl, hw⟩, hunread, hsent, hwritable⟩
    exact ⟨hhost, hwritable, hsent, w, hw, hunread⟩
  · rintro ⟨hhost, hwritable, hsent, w, hw, hunread⟩
    exact ⟨_, w, ⟨hhost, rfl, hw⟩, hunread, hsent, hwritable⟩

/-- **SAM.**  A stream opens exactly behind the two lines of the router. -/
theorem samConnect_ok_iff {route : Route} {routerHost host : String} {routerPort : UInt16}
    {session : SamSession} {stream stream' : Channel Byte}
    (hdial : route.dial s!"{routerHost}:{routerPort.toNat}" = .ok stream) :
    samConnect route routerHost routerPort session host = .ok stream' ↔
      stream.writable = 2 + stream'.writable ∧
      stream'.sent =
        stream.sent ++ [helloCommand, utf8 (streamConnect session host).toList] ∧
      ∃ w, SamNegotiation "STREAM STATUS" w ∧ stream.unread = w ++ stream'.unread := by
  rw [samConnect, samOpen_eq hdial, opens_iff (follows_samCommand route.faults _ _ _)]
  constructor
  · rintro ⟨_, w, ⟨hw, rfl⟩, hunread, hsent, hwritable⟩
    exact ⟨hwritable, hsent, w, hw, hunread⟩
  · rintro ⟨hwritable, hsent, w, hw, hunread⟩
    exact ⟨_, w, ⟨hw, rfl⟩, hunread, hsent, hwritable⟩

/-! ## Streams that open no tunnel -/

/-- The proxy stops inside the negotiation, selects another method, or refuses. -/
inductive Socks5Refusal : List Byte → Prop where
  | short {w tail : List Byte} (h : Socks5Negotiation (w ++ tail)) (hne : tail ≠ []) :
      Socks5Refusal w
  | method {ver method : Byte} {rest : List Byte} (h : [ver, method] ≠ [0x05, 0x00]) :
      Socks5Refusal (ver :: method :: rest)
  | rep {ver rep : Byte} {rest : List Byte} (h : rep ≠ 0x00) :
      Socks5Refusal (0x05 :: 0x00 :: ver :: rep :: rest)
  | atyp {ver rep rsv atyp : Byte} {rest : List Byte} (h : atyp ∉ [0x01, 0x03, 0x04]) :
      Socks5Refusal (0x05 :: 0x00 :: ver :: rep :: rsv :: atyp :: rest)

theorem Socks5Refusal.no_negotiation {w neg rest : List Byte} (h : Socks5Refusal w)
    (hneg : Socks5Negotiation neg) : w ≠ neg ++ rest := by
  cases h with
  | @short _ tail hw hne =>
    have hhost : (utf8 "".toList).length ≤ 255 := Nat.zero_le _
    exact (follows_socks5Negotiate ⟨.closed, .stalled⟩ "" 0).cut_short (a := ()) (b := ())
      ⟨hhost, rfl, hw⟩ hne ⟨hhost, rfl, hneg⟩
  | method hne =>
    obtain ⟨reply, -, rfl⟩ := hneg
    intro heq
    cases heq
    exact hne rfl
  | rep hrep =>
    obtain ⟨reply, hreply, rfl⟩ := hneg
    intro heq
    cases hreply <;> cases heq <;> exact hrep rfl
  | atyp hatyp =>
    obtain ⟨reply, hreply, rfl⟩ := hneg
    intro heq
    cases hreply <;> cases heq <;> simp at hatyp

/-- The router stops inside the negotiation, or sends a line that is too long. -/
inductive SamRefusal (marker : String) : List Byte → Prop where
  | short {w tail : List Byte} (h : SamNegotiation marker (w ++ tail)) (hne : tail ≠ []) :
      SamRefusal marker w
  | longHello {line rest : List Byte} (hline : 10 ∉ line) (hlen : 4096 < line.length) :
      SamRefusal marker (line ++ rest)
  | longStatus {hello line rest : List Byte} (hhello : SamLine "HELLO REPLY" hello)
      (hline : 10 ∉ line) (hlen : 4096 < line.length) : SamRefusal marker (hello ++ (line ++ rest))

/-- Nothing that starts like an overlong line starts with a line. -/
theorem SamLine.not_long {marker : String} {w line s t : List Byte} (h : SamLine marker w)
    (hline : 10 ∉ line) (hlen : 4096 < line.length) : line ++ s ≠ w ++ t := by
  intro heq
  obtain ⟨text, ⟨line', -, hlen', -, rfl⟩, -⟩ := h
  have hle : (line' ++ [10]).length ≤ line.length := by
    rw [List.length_append, List.length_singleton]
    omega
  have hinside : line' ++ [10] <+: line :=
    List.prefix_of_prefix_length_le ⟨t, heq.symm⟩ ⟨s, rfl⟩ hle
  exact hline (hinside.subset (by simp))

theorem SamRefusal.no_negotiation {marker : String} {w neg rest : List Byte}
    (h : SamRefusal marker w) (hneg : SamNegotiation marker neg) : w ≠ neg ++ rest := by
  cases h with
  | @short _ tail hw hne =>
    exact (follows_samCommand ⟨.closed, .stalled⟩ "" marker "").cut_short (a := ()) (b := ())
      ⟨hw, rfl⟩ hne ⟨hneg, rfl⟩
  | longHello hline hlen =>
    obtain ⟨hello, status, hhello, -, rfl⟩ := hneg
    rw [List.append_assoc]
    exact hhello.not_long hline hlen
  | longStatus hhello hline hlen =>
    obtain ⟨hello', status, hhello', hstatus, rfl⟩ := hneg
    intro heq
    rw [List.append_assoc] at heq
    obtain ⟨-, -, rfl⟩ :=
      (follows_samHello ⟨.closed, .stalled⟩).unique (a := ()) (b := ()) ⟨hhello, rfl⟩ ⟨hhello', rfl⟩ heq
    exact hstatus.not_long hline hlen (List.append_cancel_left heq)

/-! ## What the proxy is asked for -/

/-- The host and the port of a CONNECT request with a domain name. -/
def socks5Target : List Byte → Option (String × UInt16)
  | 0x05 :: 0x01 :: 0x00 :: 0x03 :: len :: rest =>
    if rest.length = len.toNat + 2 then
      (fromUtf8 (rest.take len.toNat)).map fun host =>
        (host, UInt16.ofNat (beVal (rest.drop len.toNat)))
    else none
  | _ => none

theorem socks5Target_request {host : String} (port : UInt16)
    (hhost : (utf8 host.toList).length ≤ 255) :
    socks5Target (socks5Request (utf8 host.toList) port) = some (host, port) := by
  have hlen : (UInt8.ofNat (utf8 host.toList).length).toNat = (utf8 host.toList).length := by
    rw [UInt8.toNat_ofNat']
    omega
  have hport : UInt16.ofNat (beVal (beBytes 2 port.toNat)) = port := by
    rw [(eq_beBytes_iff.mpr ⟨port.toNat_lt, rfl⟩).2, UInt16.ofNat_toNat]
  have hrequest : socks5Request (utf8 host.toList) port = 0x05 :: 0x01 :: 0x00 :: 0x03 ::
      UInt8.ofNat (utf8 host.toList).length :: (utf8 host.toList ++ beBytes 2 port.toNat) := rfl
  rw [hrequest]
  unfold socks5Target
  simp only
  rw [hlen, if_pos (by simp), List.take_left, List.drop_left, fromUtf8_iff.mpr rfl, Option.map_some,
    hport]

/-- **A tunnel takes the negotiation and nothing else.**  Behind a successful negotiation all
    bytes are left for the peer, whatever they are; a stream that ends inside it, a refusal, and
    a line that is too long are errors; and the proxy is asked for the host and the port. -/
theorem tunnel_exact :
    (∀ (route : Route) (proxyHost host : String) (proxyPort port : UInt16) (stream : Channel Byte)
      (reply rest : List Byte), route.dial s!"{proxyHost}:{proxyPort.toNat}" = .ok stream →
      2 ≤ stream.writable → (utf8 host.toList).length ≤ 255 → Socks5Reply reply →
      stream.unread = [0x05, 0x00] ++ reply ++ rest →
      ∃ stream', connectSocks5 route proxyHost proxyPort host port = .ok stream' ∧
        stream'.unread = rest ∧ stream'.sent =
          stream.sent ++ [[0x05, 0x01, 0x00], socks5Request (utf8 host.toList) port]) ∧
    (∀ (route : Route) (proxyHost host : String) (proxyPort port : UInt16) (stream : Channel Byte),
      route.dial s!"{proxyHost}:{proxyPort.toNat}" = .ok stream → Socks5Refusal stream.unread →
      ∃ e, connectSocks5 route proxyHost proxyPort host port = .error e) ∧
    (∀ (route : Route) (routerHost host : String) (routerPort : UInt16) (session : SamSession)
      (stream : Channel Byte) (hello status rest : List Byte),
      route.dial s!"{routerHost}:{routerPort.toNat}" = .ok stream → 2 ≤ stream.writable →
      SamLine "HELLO REPLY" hello → SamLine "STREAM STATUS" status →
      stream.unread = hello ++ status ++ rest →
      ∃ stream', samConnect route routerHost routerPort session host = .ok stream' ∧
        stream'.unread = rest) ∧
    (∀ (route : Route) (routerHost host : String) (routerPort : UInt16) (session : SamSession)
      (stream : Channel Byte), route.dial s!"{routerHost}:{routerPort.toNat}" = .ok stream →
      SamRefusal "STREAM STATUS" stream.unread →
      ∃ e, samConnect route routerHost routerPort session host = .error e) ∧
    (∀ (host : String) (port : UInt16), (utf8 host.toList).length ≤ 255 →
      socks5Target (socks5Request (utf8 host.toList) port) = some (host, port)) := by
  refine ⟨?_, ?_, ?_, ?_, fun host port hhost => socks5Target_request port hhost⟩
  · intro route proxyHost host proxyPort port stream reply rest hdial hwritable hhost hreply hunread
    refine ⟨⟨rest, stream.sent ++ [[0x05, 0x01, 0x00], socks5Request (utf8 host.toList) port],
      stream.writable - 2⟩, ?_, rfl, rfl⟩
    rw [connectSocks5_ok_iff hdial]
    have hleft : stream.writable = 2 + (stream.writable - 2) := by omega
    exact ⟨hhost, hleft, rfl, _, ⟨reply, hreply, rfl⟩, hunread⟩
  · intro route proxyHost host proxyPort port stream hdial hrefusal
    rw [connectSocks5_eq hdial]
    apply refuses (follows_socks5Negotiate route.faults host port)
    rintro _ neg rest ⟨-, -, hneg⟩
    exact hrefusal.no_negotiation hneg
  · intro route routerHost host routerPort session stream hello status rest hdial hwritable hhello
      hstatus hunread
    refine ⟨⟨rest, stream.sent ++ [helloCommand, utf8 (streamConnect session host).toList],
      stream.writable - 2⟩, ?_, rfl⟩
    rw [samConnect_ok_iff hdial]
    have hleft : stream.writable = 2 + (stream.writable - 2) := by omega
    exact ⟨hleft, rfl, _, ⟨hello, status, hhello, hstatus, rfl⟩, hunread⟩
  · intro route routerHost host routerPort session stream hdial hrefusal
    rw [samConnect, samOpen_eq hdial]
    apply refuses (follows_samCommand route.faults _ _ _)
    rintro _ neg rest ⟨hneg, -⟩
    exact hrefusal.no_negotiation hneg

end P2PCrawler.Tunnel
