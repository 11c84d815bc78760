import MegaFeed.Model.FeedPublisher

/-! # `net.h`: addresses, whole reads and writes

An `in_addr` is the number it is in host order, and a socket is what it was opened with. A
connection is what the operating system answers to `recv` and `send`, call by call. `readExact`
and `writeAll` are the two loops over them, and `serveClient` is the thread `serve_one_client`
that is built on both. The calls that open and set up a socket, the sleeps and the signal handler
are left out. -/

namespace MegaFeed

/-! ## `env.h` -/

/-- A string constant of the source. -/
def text (string : String) : Bytes := string.toList.map ascii

def MCAST_IF : Bytes := text "127.0.0.1"
def IEX_GROUP : Bytes := text "239.77.6.1"
def GROUP_BASE : Bytes := text "239.77.7.1"
def DATA_PORT_BASE : Nat := 1234

namespace Net

/-! ## Addresses -/

def octetText (octet : UInt8) : Bytes := (Nat.toDigits 10 octet.toNat).map ascii

def inetNtop (addr : UInt32) : Bytes :=
  [ascii '.'].intercalate ((putU32 addr).reverse.map octetText)

/-- A decimal number of one to three digits, at most 255; it starts with zero only if it is zero. -/
def octetOf (digits : Bytes) : Option UInt8 :=
  let value := digits.foldl (fun value digit => 10 * value + (digit - ascii '0').toNat) 0
  if 1 ≤ digits.length ∧ digits.length ≤ 3 ∧
      digits.all (fun digit => ascii '0' ≤ digit ∧ digit ≤ ascii '9') ∧
      (digits.head? = some (ascii '0') → digits.length = 1) ∧ value ≤ 255 then
    some (UInt8.ofNat value)
  else none

/-- `inet_pton` of an IPv4 address; `none` where it returns 0. -/
def inetPton (text : Bytes) : Option UInt32 :=
  let fields := text.splitOn (ascii '.')
  if fields.length = 4 then (fields.mapM octetOf).map fun octets => getU32 octets.reverse else none

/-- `inet_pton` gets the string up to its first NUL. -/
def parseIpv4 (text : Bytes) : Option UInt32 := inetPton (text.takeWhile (· ≠ 0))

/-- `none` is `std::exit`. -/
def groupFor (base : Bytes) (id : Nat) : Option Bytes := do
  let addr ← parseIpv4 base
  return inetNtop (addr + UInt32.ofNat id)

structure Address where
  group : UInt32
  port : UInt16
deriving DecidableEq

/-- What `udp_recv_socket` binds and joins. -/
structure Socket where
  port : UInt16
  multiaddr : UInt32
  interface : UInt32

def udpRecvSocket (group : Bytes) (port : Nat) (mcastIf : Bytes) : Option Socket := do
  let multiaddr ← parseIpv4 group
  let interface ← parseIpv4 mcastIf
  return { port := UInt16.ofNat port, multiaddr, interface }

/-- The `destination` that `FeedPublisher::init` gives each bucket. -/
def destinations (groupBase : Bytes) (portBase bucketCount : Nat) : Option (List Address) :=
  (List.range bucketCount).mapM fun i => do
    let group ← parseIpv4 (← groupFor groupBase i)
    return { group, port := UInt16.ofNat (portBase + i) }

/-- The sockets that the constructor of `Subscriber` opens. -/
def sockets (groupBase mcastIf : Bytes) (portBase : Nat) (bucketIds : List Nat) :
    Option (List Socket) :=
  bucketIds.mapM fun id => do
    udpRecvSocket (← groupFor groupBase id) (portBase + id) mcastIf

/-! ## `read_exact` -/

/-- What `recv` meets on a connection, in order. A call takes at most what it asks for; what is left
of the bytes is there for the next one. -/
inductive Incoming
  | bytes (bytes : Bytes)
  | interrupted
  | closed
  | failed
deriving DecidableEq

inductive ReadExact
  /-- The bytes read, and what is still to come. -/
  | done (bytes : Bytes) (incoming : List Incoming)
  | stopped
  | blocked
deriving DecidableEq

/-- `read_exact`, when `got` has been read and `remaining` bytes are missing. -/
def readExact (got : Bytes) (remaining : Nat) : List Incoming → ReadExact
  | [] => if remaining = 0 then .done got [] else .blocked
  | next :: incoming =>
    if remaining = 0 then .done got (next :: incoming)
    else match next with
      | .interrupted => readExact got remaining incoming
      | .closed | .failed => .stopped
      | .bytes bytes =>
        if bytes = [] then .stopped
        else if remaining < bytes.length then
          .done (got ++ bytes.take remaining) (.bytes (bytes.drop remaining) :: incoming)
        else readExact (got ++ bytes) (remaining - bytes.length) incoming

/-! ## `write_all` -/

/-- A result of `send`. -/
inductive Outgoing
  | moved (count : Nat)
  | interrupted
  /-- The send buffer is full, and `poll` finds room within 100 ms or not. -/
  | full (room : Bool)
  | failed
deriving DecidableEq

structure WriteAll where
  sent : Bytes
  /-- What it returned; `none` if `send` still waits. -/
  result : Option Bool
  outgoing : List Outgoing
deriving DecidableEq

def writeAll (bytes : Bytes) : List Outgoing → WriteAll
  | [] => ⟨[], if bytes = [] then some true else none, []⟩
  | next :: outgoing =>
    if bytes = [] then ⟨[], some true, next :: outgoing⟩
    else match next with
      | .moved count =>
        let written := writeAll (bytes.drop count) outgoing
        { written with sent := bytes.take count ++ written.sent }
      | .interrupted | .full true => writeAll bytes outgoing
      | .full false | .failed => ⟨[], some false, outgoing⟩

/-! ## `serve_one_client` -/

/-- Where the thread is, or why it has left its loop and closed the connection: `read_exact`
returned false (`peerGone`), the bucket or the count of a request is wrong (`refused`), or
`write_all` returned false. When it is still `serving`, it has made all the rounds it was given. -/
inductive Ended
  | reading
  | writing
  | peerGone
  | refused
  | writeFailed
  | serving
deriving DecidableEq

structure Session where
  written : Bytes
  ended : Ended

/-- The thread goes on if `write_all` returned true. -/
def WriteAll.andThen (write : WriteAll) (later : Session) : Session :=
  match write.result with
  | none => ⟨write.sent, .writing⟩
  | some false => ⟨write.sent, .writeFailed⟩
  | some true => { later with written := write.sent ++ later.written }

variable {bucketCount ringSize : Nat} [NeZero ringSize]

/-- The thread `serve_one_client`, for at most `fuel` requests. `publisherAt` is the publisher
whenever `ring_mutex` is locked for a request. -/
def serveClient (publisherAt : Nat → FeedPublisher bucketCount ringSize) :
    (fuel served : Nat) → List Incoming → List Outgoing → Session
  | 0, _, _, _ => ⟨[], .serving⟩
  | fuel + 1, served, incoming, outgoing =>
    match readExact [] 4 incoming with
    | .blocked => ⟨[], .reading⟩
    | .stopped => ⟨[], .peerGone⟩
    | .done requestHeader incoming =>
      let bucketIndex := getU16 requestHeader
      let count := (getU16 (requestHeader.drop 2)).toNat
      if hcheck : bucketIndex.toNat ≥ bucketCount ∨ count = 0 ∨ count > MAX_REPAIR_BATCH then
        ⟨[], .refused⟩
      else match readExact [] (count * 8) incoming with
        | .blocked => ⟨[], .reading⟩
        | .stopped => ⟨[], .peerGone⟩
        | .done sequenceBytes incoming =>
          have hindex := Nat.not_le.mp (not_or.mp hcheck).1
          let ring := (publisherAt served).buckets[bucketIndex.toNat].ring
          let response := (List.range count).flatMap fun i =>
            FeedPublisher.frame bucketIndex ring (getU64 (sequenceBytes.drop (i * 8)))
          let write := writeAll response outgoing
          write.andThen (serveClient publisherAt fuel (served + 1) incoming write.outgoing)

end Net
end MegaFeed
